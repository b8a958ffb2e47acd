/-
A sample policy over the transaction rules: which payments are settled
faster than others.
-/

namespace Verdict.Sample.Settlement

/-- The name of the policy's document. -/
def fileName : String := "faster_settlement.yaml"

/-- The lines of the document. -/
def lines : List String :=
  ["ruleset: TransactionEval",
   "rules:",
   "  - PaymentAmount",
   "  - PaymentCurrency",
   "  - BuyerAndMerchantCountry",
   "  - ExcludeMerchants",
   "expressions:",
   "  EligibleForFasterSettlement:",
   "    And:",
   "      - type: rule",
   "        rule: PaymentAmount",
   "        fields:",
   "          - \x7bname: op, type: enum, value: \">=\"\x7d",
   "          - \x7bname: amount, type: integer, value: 10000\x7d",
   "      - type: rule",
   "        rule: PaymentCurrency",
   "        fields:",
   "          - \x7bname: op, type: enum, value: in\x7d",
   "          - \x7bname: currency, type: string_array, value: [eur, gbp, usd]\x7d",
   "      - type: rule",
   "        rule: BuyerAndMerchantCountry",
   "        fields:",
   "          - \x7bname: op, type: enum, value: \"=\"\x7d",
   "      - type: rule",
   "        rule: ExcludeMerchants",
   "        fields:",
   "          - \x7bname: ids, type: string_array, value: [abcs123, xyz000]\x7d",
   "      - type: rule",
   "        rule: PaymentAmount",
   "        fields:",
   "          - \x7bname: op, type: enum, value: \"<=\"\x7d",
   "          - \x7bname: amount, type: integer, value: 1000000\x7d",
   "  IneligibleForFasterSettlement:",
   "    Not:",
   "      type: expr",
   "      expr: EligibleForFasterSettlement"]

/-- The text of the document. -/
def text : String := String.join (lines.map (· ++ "\n"))

end Verdict.Sample.Settlement
