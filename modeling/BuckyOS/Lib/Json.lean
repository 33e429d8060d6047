import BuckyOS.Lib.OrderedMap
import Mathlib.Data.String.Basic

/-! JSON values with the accessors of a JSON library: lookup by field name, views of a value as
text, list or object, and the compact text of a value. -/
namespace BuckyOS
/-- A JSON value. A number is kept as the text it is printed with, so that `0.0` and `-0.0` differ;
the fields of an object stand in increasing order of their names. -/
inductive Json where
  | null
  | bool (value : Bool)
  | number (text : String)
  | string (value : String)
  | array (items : List Json)
  | object (fields : List (String × Json))

namespace Json
mutual

def decEq : (a b : Json) → Decidable (a = b)
  | .null, .null => isTrue rfl
  | .bool a, .bool b => decidable_of_iff (a = b) (by simp)
  | .number a, .number b => decidable_of_iff (a = b) (by simp)
  | .string a, .string b => decidable_of_iff (a = b) (by simp)
  | .array as, .array bs =>
    have := decEqItems as bs
    decidable_of_iff (as = bs) (by simp)
  | .object as, .object bs =>
    have := decEqFields as bs
    decidable_of_iff (as = bs) (by simp)
  | .null, .bool _ | .null, .number _ | .null, .string _ | .null, .array _ | .null, .object _
  | .bool _, .null | .bool _, .number _ | .bool _, .string _ | .bool _, .array _
  | .bool _, .object _
  | .number _, .null | .number _, .bool _ | .number _, .string _ | .number _, .array _
  | .number _, .object _
  | .string _, .null | .string _, .bool _ | .string _, .number _ | .string _, .array _
  | .string _, .object _
  | .array _, .null | .array _, .bool _ | .array _, .number _ | .array _, .string _
  | .array _, .object _
  | .object _, .null | .object _, .bool _ | .object _, .number _ | .object _, .string _
  | .object _, .array _ => isFalse (by simp)

def decEqItems : (as bs : List Json) → Decidable (as = bs)
  | [], [] => isTrue rfl
  | [], _ :: _ => isFalse (by simp)
  | _ :: _, [] => isFalse (by simp)
  | a :: as, b :: bs =>
    have := decEq a b
    have := decEqItems as bs
    decidable_of_iff (a = b ∧ as = bs) (by simp)

def decEqFields : (as bs : List (String × Json)) → Decidable (as = bs)
  | [], [] => isTrue rfl
  | [], _ :: _ => isFalse (by simp)
  | _ :: _, [] => isFalse (by simp)
  | (k,a) :: as, (l,b) :: bs =>
    have := decEq a b
    have := decEqFields as bs
    decidable_of_iff ((k = l ∧ a = b) ∧ as = bs) (by simp)

end

instance : DecidableEq Json := decEq

def get? : Json → String → Option Json
  | .object fields, name => (fields.find? (fun f => f.1 = name)).map Prod.snd
  | _, _ => none

def asStr : Json → Option String
  | .string value => some value
  | _ => none

def asArray : Json → Option (List Json)
  | .array items => some items
  | _ => none

def asObject : Json → Option (List (String × Json))
  | .object fields => some fields
  | _ => none

def ofFields (fields : List (String × Json)) : Json :=
  .object (OrderedMap.ofList fields).entries

def ofNat (n : ℕ) : Json := .number (toString n)

theorem ofNat_injective : Function.Injective ofNat := by
  intro m n h
  have htext := Json.number.inj h
  rw [Nat.toString_eq_ofList_toDigits,Nat.toString_eq_ofList_toDigits] at htext
  have hdigits := congrArg (fun cs => Nat.ofDigitChars 10 cs 0) (String.ofList_injective htext)
  simpa using hdigits

def ofOption : Option String → Json
  | some text => .string text
  | none => .null

def hexDigits (n : ℕ) : String :=
  let digits := Nat.toDigits 16 n
  String.ofList (List.replicate (4 - digits.length) '0' ++ digits)

def escapeChar (c : Char) : String :=
  if c = '"' then "\\\""
  else if c = '\\' then "\\\\"
  else if c.toNat = 8 then "\\b"
  else if c.toNat = 12 then "\\f"
  else if c = '\n' then "\\n"
  else if c = '\r' then "\\r"
  else if c = '\t' then "\\t"
  else if c.toNat < 32 then "\\u" ++ hexDigits c.toNat
  else c.toString

def quote (text : String) : String := "\"" ++ String.join (text.toList.map escapeChar) ++ "\""

mutual

def render : Json → String
  | .null => "null"
  | .bool true => "true"
  | .bool false => "false"
  | .number text => text
  | .string value => quote value
  | .array items => "[" ++ ",".intercalate (renderItems items) ++ "]"
  | .object fields => "\x7b" ++ ",".intercalate (renderFields fields) ++ "\x7d"

def renderItems : List Json → List String
  | [] => []
  | item :: items => render item :: renderItems items

def renderFields : List (String × Json) → List String
  | [] => []
  | (name,value) :: fields => (quote name ++ ":" ++ render value) :: renderFields fields

end

example : render (ofFields [("b",.array [.bool true,.null]),("a",.string "x\"y")]) =
    "\x7b\"a\":\"x\\\"y\",\"b\":[true,null]\x7d" := by decide +kernel

end Json
end BuckyOS
