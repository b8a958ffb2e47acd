/-
A sample ruleset: rules that decide on a payment by its amount and
currency, by the countries of buyer and merchant, and by the merchant. All
of them take the merchant and the payment.
-/
import Verdict.Record.Part
import Verdict.Ruleset.Registry

namespace Verdict.Sample.Transaction

/-- The name of the ruleset. -/
def rulesetName : String := "TransactionEval"

-- ============================================================ records

/-- The parts of a merchant. -/
def merchantParts : List Record.Part :=
  [⟨"token", .text, none⟩, ⟨"country", .text, none⟩,
   ⟨"capabilities", .texts, some (.list [])⟩]

/-- The parts of a payment. The amount is in minor units, and the merchant
is given by its token. -/
def paymentParts : List Record.Part :=
  [⟨"currency", .text, none⟩, ⟨"amount", .integer, none⟩, ⟨"merchant", .text, none⟩,
   ⟨"buyer_country", .text, none⟩]

/-- The records by name, with their parts. -/
def records : Table (List Record.Part) :=
  [("Merchant", merchantParts), ("Payment", paymentParts)]

/-- The merchant that a value describes. -/
def merchant (v : Value) : Except (List Detail) Input :=
  (Record.read "Merchant" merchantParts v).map (.record "Merchant")

/-- The payment that a value describes. -/
def payment (v : Value) : Except (List Detail) Input :=
  (Record.read "Payment" paymentParts v).map (.record "Payment")

/-- The parameters that all rules of the ruleset share. -/
def params : List Param :=
  [⟨"merchant", ⟨"Merchant", ""⟩, .keyword⟩, ⟨"payment", ⟨"Payment", ""⟩, .keyword⟩]

-- ========================================================= comparison

/-- How two things are compared. -/
inductive Operation where
  | isIn
  | notIn
  | equal
  | different
  | greater
  | greaterOrEqual
  | less
  | lessOrEqual
  deriving Repr, DecidableEq

namespace Operation

/-- The operations with the names and values of the choice that offers
them. -/
def offered : List (Operation × String × String) :=
  [(isIn, "IN", "in"), (notIn, "NI", "not in"), (equal, "EQ", "="),
   (different, "NE", "!="), (greater, "GT", ">"), (greaterOrEqual, "GE", ">="),
   (less, "LT", "<"), (lessOrEqual, "LE", "<=")]

/-- The choice of an operation. -/
def choice : Choice := ⟨"Operation", offered.map (·.2)⟩

/-- The operation of a value. -/
def ofValue? (value : String) : Option Operation :=
  (offered.find? fun o => o.2.2 = value).map (·.1)

/-- The operation that is bound to a field. -/
def ofBound? (b : Bound) : Option Operation := b.toValue.text?.bind ofValue?

end Operation

/-- Compare two whole numbers; membership is equality. -/
def compareNumbers (op : Operation) (a b : Int) : Bool :=
  match op with
  | .isIn => a = b
  | .equal => a = b
  | .notIn => a ≠ b
  | .different => a ≠ b
  | .greater => b < a
  | .greaterOrEqual => b ≤ a
  | .less => a < b
  | .lessOrEqual => a ≤ b

-- =============================================================== parts

/-- A test of parts of the inputs, which may lack them. -/
abbrev Test := Except Fault Bool

/-- A part of an input. -/
def part (ctx : Context) (input name : String) : Except Fault Value :=
  match (ctx.input? input).bind fun i => i.part? name with
  | some v => .ok v
  | none => .error .noPart

/-- A part of an input that is a text. -/
def textPart (ctx : Context) (input name : String) : Except Fault String := do
  match ← part ctx input name with
  | .str s => pure s
  | _ => throw .noPart

/-- A part of an input that is a whole number. -/
def integerPart (ctx : Context) (input name : String) : Except Fault Int := do
  match ← part ctx input name with
  | .int n => pure n
  | _ => throw .noPart

/-- The value bound to a field. -/
def field (bindings : Bindings) (name : String) : Except Fault Bound :=
  match Table.at? bindings name with
  | some b => .ok b
  | none => .error .noPart

/-- The operation bound to the field for it, if it is one. -/
def operation (bindings : Bindings) : Except Fault (Option Operation) := do
  pure (Operation.ofBound? (← field bindings "op"))

/-- The whole number bound to a field. -/
def integerField (bindings : Bindings) (name : String) : Except Fault Int := do
  match ← field bindings name with
  | .integer n => pure n
  | _ => throw .noPart

/-- The texts bound to a field. -/
def textsField (bindings : Bindings) (name : String) : Except Fault (List String) := do
  match ← field bindings name with
  | .textList items => pure items
  | _ => throw .noPart

-- =============================================================== tests

/-- Whether the amount of the payment compares with the given one. -/
def amountTest (bindings : Bindings) (ctx : Context) : Test := do
  let op ← operation bindings
  let amount ← integerField bindings "amount"
  match op with
  | some op => pure (compareNumbers op (← integerPart ctx "payment" "amount") amount)
  | none => pure false

/-- Whether the currency of the payment is the first of the given ones, or
one of them. Currencies are not ordered. -/
def currencyTest (bindings : Bindings) (ctx : Context) : Test := do
  let op ← operation bindings
  let given ← textsField bindings "currency"
  let currency := textPart ctx "payment" "currency"
  match op, given with
  | some .equal, [] => pure false
  | some .equal, first :: _ => pure ((← currency) = first)
  | some .different, [] => pure true
  | some .different, first :: _ => pure ((← currency) ≠ first)
  | some .isIn, _ => pure (given.contains (← currency))
  | some .notIn, _ => pure (!given.contains (← currency))
  | _, _ => pure false

/-- Whether the countries of merchant and buyer are the same, or not. -/
def countryTest (bindings : Bindings) (ctx : Context) : Test := do
  let same : Test := do
    let merchant ← textPart ctx "merchant" "country"
    let buyer ← textPart ctx "payment" "buyer_country"
    pure (merchant = buyer)
  match ← operation bindings with
  | some .equal => same
  | some .isIn => same
  | some .different => pure !(← same)
  | some .notIn => pure !(← same)
  | _ => pure false

/-- Whether neither the merchant nor that of the payment is one of the
given. -/
def exclusionTest (bindings : Bindings) (ctx : Context) : Test := do
  let excluded ← textsField bindings "ids"
  if excluded.contains (← textPart ctx "merchant" "token") then pure false
  else pure (!excluded.contains (← textPart ctx "payment" "merchant"))

-- =============================================================== rules

/-- What a rule that tests its inputs does. -/
def testing (test : Bindings → Context → Test) : Body := fun _ bindings ctx =>
  ((test bindings ctx).map fun b => .value (.bool b), ctx)

/-- The field for the operation. -/
def operationField : FieldSpec :=
  ⟨"op", .choice Operation.choice, "Operation", some Operation.choice.options⟩

/-- The rule on the amount of a payment. -/
def paymentAmount : Rule :=
  { name := "PaymentAmount"
    schema := ⟨[operationField, ⟨"amount", .integer, "Transaction Amount", none⟩], by decide⟩
    params := params
    body := testing amountTest }

/-- The rule on the currency of a payment. -/
def paymentCurrency : Rule :=
  { name := "PaymentCurrency"
    schema := ⟨[operationField, ⟨"currency", .textList, "Currencies", none⟩], by decide⟩
    params := params
    body := testing currencyTest }

/-- The rule on the countries of buyer and merchant. -/
def buyerAndMerchantCountry : Rule :=
  { name := "BuyerAndMerchantCountry"
    schema := ⟨[operationField], by decide⟩
    params := params
    body := testing countryTest }

/-- The rule against some merchants. -/
def excludeMerchants : Rule :=
  { name := "ExcludeMerchants"
    schema := ⟨[⟨"ids", .textList, "Merchant IDs", none⟩], by decide⟩
    params := params
    body := testing exclusionTest }

/-- The rules of the ruleset. -/
def rules : List Rule :=
  [paymentAmount, paymentCurrency, buyerAndMerchantCountry, excludeMerchants]

/-- Register the rules into a registry and seal their ruleset. -/
def define (g : Registry) : Journal (Except DeclarationError Ruleset × Registry) :=
  g.define rulesetName (rules.map .rule)

end Verdict.Sample.Transaction
