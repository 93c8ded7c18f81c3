import FetchQuery.Operator.Basic

namespace FetchQuery

inductive Fault where
  | unknownOperator (id : String)
  | operandCount (id : String) (arity : Arity) (given : Nat)
  | notAnInteger (id operand : String)
  | unknownLinkType (linkType : String)
  | unpairedKeys (table : String) (fromCount toCount : Nat)
  deriving Repr, DecidableEq

namespace Fault

def message : Fault → String
  | unknownOperator id => "Operator '" ++ id ++ "' is not implemented"
  | operandCount id arity given =>
    "Operator '" ++ id ++ "' requires " ++ arity.phrase ++ " operand(s), got " ++ toString given
  | notAnInteger id operand =>
    "Operator '" ++ id ++ "' expects an integer operand, got '" ++ operand ++ "'"
  | unknownLinkType linkType => "Unrecognized join type '" ++ linkType ++ "'"
  | unpairedKeys table fromCount toCount =>
    "Link to '" ++ table ++ "' declares " ++ toString fromCount ++ " 'from' column(s) but " ++
      toString toCount ++ " 'to' column(s)"

end Fault

end FetchQuery
