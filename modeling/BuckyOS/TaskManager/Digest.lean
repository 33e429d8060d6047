import BuckyOS.Lib.Json

/-! The digest of an input: the text that is hashed for a JSON value, and when two values have the
same one. -/
namespace BuckyOS.TaskManager
open List Bool

section Texts
def hashFields (fields : List (String × List Char)) : List Char :=
  fields.flatMap (fun field => field.1.toList ++ ':' :: (field.2 ++ [',']))

mutual

def hashCanonicalJsonValue : Json → List Char
  | .object fields =>
    '\x7b' :: (hashFields ((hashedFields fields).insertionSort (fun a b => a.1 ≤ b.1)) ++ ['\x7d'])
  | .array items => '[' :: (hashItems items ++ [']'])
  | other => other.render.toList

def hashItems : List Json → List Char
  | [] => []
  | item :: items => hashCanonicalJsonValue item ++ ',' :: hashItems items

def hashedFields : List (String × Json) → List (String × List Char)
  | [] => []
  | (key,value) :: fields => (key,hashCanonicalJsonValue value) :: hashedFields fields

end

def computeTaskInputDigest (sha256 : String → String) (input : Json) : String :=
  sha256 (String.ofList (hashCanonicalJsonValue input))

mutual

def sortKeys : Json → Json
  | .object fields => .object ((sortFields fields).insertionSort (fun a b => a.1 ≤ b.1))
  | .array items => .array (sortItems items)
  | other => other

def sortItems : List Json → List Json
  | [] => []
  | item :: items => sortKeys item :: sortItems items

def sortFields : List (String × Json) → List (String × Json)
  | [] => []
  | (key,value) :: fields => (key,sortKeys value) :: sortFields fields

end

mutual

/-- A value with `0.0` for every negative zero, to which a JSON library holds it equal. -/
def positiveZeros : Json → Json
  | .object fields => .object (positiveFields fields)
  | .array items => .array (positiveItems items)
  | .number text => .number (if text = "-0.0" then "0.0" else text)
  | other => other

def positiveItems : List Json → List Json
  | [] => []
  | item :: items => positiveZeros item :: positiveItems items

def positiveFields : List (String × Json) → List (String × Json)
  | [] => []
  | (key,value) :: fields => (key,positiveZeros value) :: positiveFields fields

end

/-- Equal values, in whatever order their keys stand. -/
def SameValue (x y : Json) : Prop := sortKeys (positiveZeros x) = sortKeys (positiveZeros y)

instance (x y : Json) : Decidable (SameValue x y) := inferInstanceAs (Decidable (_ = _))

mutual

def plainText : Json → List Char
  | .object fields => '\x7b' :: (fieldsText fields ++ ['\x7d'])
  | .array items => '[' :: (itemsText items ++ [']'])
  | other => other.render.toList

def itemsText : List Json → List Char
  | [] => []
  | item :: items => plainText item ++ ',' :: itemsText items

def fieldsText : List (String × Json) → List Char
  | [] => []
  | (key,value) :: fields => key.toList ++ ':' :: (plainText value ++ ',' :: fieldsText fields)

end

theorem hashFields_map (fields : List (String × Json)) :
    hashFields (fields.map (fun field => (field.1,plainText field.2))) = fieldsText fields := by
  induction fields with
  | nil => rfl
  | cons field fields ih =>
    obtain ⟨key,value⟩ := field
    rw [hashFields] at ih
    simp [hashFields,fieldsText,ih]

mutual

theorem hashCanonicalJsonValue_eq : ∀ x : Json, hashCanonicalJsonValue x = plainText (sortKeys x)
  | .object fields => by
    have hsorted := map_insertionSort (fun a b : String × Json => a.1 ≤ b.1)
      (fun a b : String × List Char => a.1 ≤ b.1) (fun field => (field.1,plainText field.2))
      (sortFields fields) (fun _ _ _ _ => Iff.rfl)
    rw [hashCanonicalJsonValue,sortKeys,plainText,hashedFields_eq fields,← hashFields_map,hsorted]
  | .array items => by rw [hashCanonicalJsonValue,sortKeys,plainText,hashItems_eq items]
  | .null | .bool _ | .number _ | .string _ => rfl

theorem hashItems_eq : ∀ items : List Json, hashItems items = itemsText (sortItems items)
  | [] => rfl
  | item :: items => by rw [hashItems,sortItems,itemsText,hashCanonicalJsonValue_eq item,hashItems_eq items]

theorem hashedFields_eq : ∀ fields : List (String × Json),
    hashedFields fields = (sortFields fields).map (fun field => (field.1,plainText field.2))
  | [] => rfl
  | (key,value) :: fields => by
    rw [hashedFields,sortFields,map_cons,hashCanonicalJsonValue_eq value,hashedFields_eq fields]

end

end Texts

section Keys
mutual

def allTexts (key number : String → Bool) : Json → Bool
  | .object fields => allFields key number fields
  | .array items => allItems key number items
  | .number text => number text
  | .null | .bool _ | .string _ => true

def allItems (key number : String → Bool) : List Json → Bool
  | [] => true
  | item :: items => allTexts key number item && allItems key number items

def allFields (key number : String → Bool) : List (String × Json) → Bool
  | [] => true
  | (name,value) :: fields => key name && allTexts key number value && allFields key number fields

end

/-- A key without a colon that does not begin with a closing brace. -/
def plainKey (key : String) : Bool := ':' ∉ key.toList ∧ key.toList.head? ≠ some '\x7d'

def numberChar (c : Char) : Bool := c.isDigit || c ∈ ['-','+','.','e','E']

def printedNumber (text : String) : Bool := text.toList ≠ [] ∧ text.toList.all numberChar

variable {key number : String → Bool}

theorem allFields_eq (fields : List (String × Json)) : allFields key number fields =
      fields.all (fun field => key field.1 && allTexts key number field.2) := by
  induction fields with
  | nil => rfl
  | cons field fields ih =>
    obtain ⟨name,value⟩ := field
    rw [allFields,all_cons,ih]

mutual

theorem allTexts_sortKeys : ∀ x : Json, allTexts key number (sortKeys x) = allTexts key number x
  | .object fields => by
    rw [sortKeys,allTexts,allTexts,allFields_eq,← allFields_sortFields fields,allFields_eq]
    exact (perm_insertionSort _ _).all_eq
  | .array items => by rw [sortKeys,allTexts,allTexts,allItems_sortItems items]
  | .null | .bool _ | .number _ | .string _ => rfl

theorem allItems_sortItems : ∀ items : List Json,
    allItems key number (sortItems items) = allItems key number items
  | [] => rfl
  | item :: items => by rw [sortItems,allItems,allItems,allTexts_sortKeys item,allItems_sortItems items]

theorem allFields_sortFields : ∀ fields : List (String × Json),
    allFields key number (sortFields fields) = allFields key number fields
  | [] => rfl
  | (name,value) :: fields => by
    rw [sortFields,allFields,allFields,allTexts_sortKeys value,allFields_sortFields fields]

end

end Keys

section Scalars
/-- What comes after a value: nothing, or a comma. -/
def Ends (rest : List Char) : Prop := ∀ c ∈ rest.head?, c = ','

theorem ends_nil : Ends [] := fun _ h => by cases h

theorem ends_comma (rest : List Char) : Ends (',' :: rest) := fun _ h => (Option.some.inj h).symm

def special : List Char := '"' :: '\\' :: (List.range 32).map Char.ofNat

variable {c : Char} {text text' rest rest' : List Char}

theorem escapeChar_of_not_special (h : c ∉ special) : (Json.escapeChar c).toList = [c] := by
  have hquote : c ≠ '"' := by
    rintro rfl
    exact h (by decide)
  have hslash : c ≠ '\\' := by
    rintro rfl
    exact h (by decide)
  have hcontrol : ¬ c.toNat < 32 := by
    intro hlt
    refine h (mem_cons_of_mem _ (mem_cons_of_mem _ ?_))
    exact mem_map.mpr ⟨c.toNat,mem_range.mpr hlt,Char.ofNat_toNat c⟩
  have hcode : ∀ d : Char, d.toNat < 32 → c ≠ d := by
    rintro d hd rfl
    exact hcontrol hd
  rw [Json.escapeChar,if_neg hquote,if_neg hslash,if_neg (by omega),if_neg (by omega),
    if_neg (hcode '\n' (by decide)),if_neg (hcode '\r' (by decide)),
    if_neg (hcode '\t' (by decide)),if_neg hcontrol]
  simp [Char.toString]

theorem escapeChar_of_special : ∀ c ∈ special, (Json.escapeChar c).toList.head? = some '\\' := by
  have hall : special.all (fun c => (Json.escapeChar c).toList.head? == some '\\') = true := by
    decide +kernel
  simpa using hall

/-- No escape is the beginning of another. -/
theorem escapeChar_special_inj : ∀ c ∈ special, ∀ d ∈ special,
    (Json.escapeChar c).toList <+: (Json.escapeChar d).toList → c = d := by
  have hall : special.all (fun c => special.all fun d =>
      !(Json.escapeChar c).toList.isPrefixOf (Json.escapeChar d).toList || c == d) = true := by
    decide +kernel
  intro c hc d hd hfront
  have hpair := all_eq_true.mp (all_eq_true.mp hall c hc) d hd
  rw [ isPrefixOf_iff_prefix.mpr hfront] at hpair
  simpa using hpair

theorem escapeChar_append_inj {d : Char} {xs ys : List Char}
    (h : (Json.escapeChar c).toList ++ xs = (Json.escapeChar d).toList ++ ys) : c = d ∧ xs = ys := by
  have hlead : ∀ {c d : Char} {xs ys : List Char}, c ∈ special → d ∉ special →
      (Json.escapeChar c).toList ++ xs ≠ (Json.escapeChar d).toList ++ ys := by
    intro c d xs ys hc hd heq
    obtain ⟨rest,hrest⟩ := head?_eq_some_iff.mp (escapeChar_of_special c hc)
    rw [hrest,escapeChar_of_not_special hd,cons_append,singleton_append] at heq
    exact hd ((cons.inj heq).1 ▸ (by decide))
  by_cases hc : c ∈ special <;> by_cases hd : d ∈ special
  · have hsame : c = d := by
      rcases prefix_or_prefix_of_prefix (prefix_append _ xs) (h ▸ prefix_append _ ys) with hpre | hpre
      · exact escapeChar_special_inj c hc d hd hpre
      · exact (escapeChar_special_inj d hd c hc hpre).symm
    subst hsame
    exact ⟨rfl,append_cancel_left h⟩
  · exact absurd h (hlead hc hd)
  · exact absurd h.symm (hlead hd hc)
  · rw [escapeChar_of_not_special hc,escapeChar_of_not_special hd] at h
    exact cons.inj h

theorem escapeChar_append_ne (c : Char) (xs ys : List Char) :
    (Json.escapeChar c).toList ++ xs ≠ '"' :: ys := by
  intro h
  by_cases hc : c ∈ special
  · obtain ⟨rest,hrest⟩ := head?_eq_some_iff.mp (escapeChar_of_special c hc)
    rw [hrest] at h
    exact absurd (cons.inj h).1 (by decide)
  · rw [escapeChar_of_not_special hc] at h
    exact hc ((cons.inj h).1 ▸ (by decide))

def escaped (text : List Char) : List Char := text.flatMap (fun c => (Json.escapeChar c).toList)

theorem escaped_quote_inj (h : escaped text ++ '"' :: rest = escaped text' ++ '"' :: rest') :
    text = text' ∧ rest = rest' := by
  induction text generalizing text' with
  | nil =>
    cases text' with
    | nil => exact ⟨rfl,(cons.inj h).2⟩
    | cons c text' =>
      rw [escaped,escaped,flatMap_cons,append_assoc] at h
      exact absurd h.symm (escapeChar_append_ne _ _ _)
  | cons c text ih =>
    cases text' with
    | nil =>
      rw [escaped,escaped,flatMap_cons,append_assoc] at h
      exact absurd h (escapeChar_append_ne _ _ _)
    | cons d text' =>
      rw [escaped,escaped,flatMap_cons,flatMap_cons,append_assoc,append_assoc] at h
      obtain ⟨rfl,htail⟩ := escapeChar_append_inj h
      obtain ⟨rfl,hend⟩ := ih htail
      exact ⟨rfl,hend⟩

theorem plainText_string (text : String) :
    plainText (.string text) = '"' :: (escaped text.toList ++ ['"']) := by
  show (Json.quote text).toList = _
  simp [Json.quote,escaped,String.toList_join,flatMap_map]

theorem number_append_inj (htext : text.all numberChar = true)
    (htext' : text'.all numberChar = true) (hrest : Ends rest) (hrest' : Ends rest')
    (h : text ++ rest = text' ++ rest') : text = text' ∧ rest = rest' := by
  have htake : ∀ {text rest : List Char}, text.all numberChar = true → Ends rest →
      (text ++ rest).takeWhile numberChar = text := by
    intro text rest hall hends
    rw [takeWhile_append_of_pos (by simpa using hall)]
    cases rest with
    | nil => simp
    | cons c rest =>
      obtain rfl := hends c rfl
      rw [takeWhile_cons_of_neg (by decide),append_nil]
  have hsame : text = text' := by rw [← htake htext hrest,h,htake htext' hrest']
  subst hsame
  exact ⟨rfl,append_cancel_left h⟩

end Scalars

section Values
def kindOf (c : Char) : ℕ :=
  if c = 'n' then 0 else if c = 't' then 1 else if c = 'f' then 2 else if c = '"' then 3
  else if c = '[' then 4 else if c = '\x7b' then 5 else if numberChar c then 6 else 7

def kind : Json → ℕ
  | .null => 0
  | .bool true => 1
  | .bool false => 2
  | .string _ => 3
  | .array _ => 4
  | .object _ => 5
  | .number _ => 6

/-- Values whose keys and numbers can be told from the rest of the text. -/
abbrev Legible (x : Json) : Prop := allTexts plainKey printedNumber x = true

variable {c : Char} {x : Json} {rest rest' : List Char} {key : String}

theorem kindOf_number (h : numberChar c = true) : kindOf c = 6 := by
  have hne : ∀ d : Char, numberChar d = false → c ≠ d := by
    rintro d hd rfl
    exact absurd (h.symm.trans hd) (by decide)
  rw [kindOf,if_neg (hne 'n' (by decide)),if_neg (hne 't' (by decide)),if_neg (hne 'f' (by decide)),
    if_neg (hne '"' (by decide)),if_neg (hne '[' (by decide)),if_neg (hne '\x7b' (by decide)),if_pos h]

theorem plainText_head (h : Legible x) : ∃ c rest, plainText x = c :: rest ∧ kindOf c = kind x := by
  cases x with
  | null => exact ⟨'n',_,rfl,by decide⟩
  | bool value =>
    cases value with
    | true => exact ⟨'t',_,rfl,by decide⟩
    | false => exact ⟨'f',_,rfl,by decide⟩
  | string value => exact ⟨'"',_,plainText_string value,rfl⟩
  | array items => exact ⟨'[',_,by rw [plainText],rfl⟩
  | object fields => exact ⟨'\x7b',_,by rw [plainText],rfl⟩
  | number text =>
    have hnumber : text.toList ≠ [] ∧ text.toList.all numberChar = true := of_decide_eq_true h
    obtain ⟨c,rest,htext⟩ := exists_cons_of_ne_nil hnumber.1
    rw [htext,all_cons,and_eq_true] at hnumber
    exact ⟨c,rest,htext,kindOf_number hnumber.2.1⟩

theorem kind_bool (value : Bool) : kind (.bool value) = if value then 1 else 2 := by cases value <;> rfl

theorem kind_of_append {y : Json} (hx : Legible x) (hy : Legible y)
    (h : plainText x ++ rest = plainText y ++ rest') : kind x = kind y := by
  obtain ⟨c,xs,hxs,hc⟩ := plainText_head hx
  obtain ⟨d,ys,hys,hd⟩ := plainText_head hy
  rw [hxs,hys] at h
  rw [← hc,← hd,(cons.inj h).1]

theorem plainText_append_ne (hx : Legible x) (hc : kindOf c = 7) (rest rest' : List Char) :
    plainText x ++ rest ≠ c :: rest' := by
  intro h
  obtain ⟨d,xs,hxs,hd⟩ := plainText_head hx
  rw [hxs] at h
  obtain rfl := (cons.inj h).1
  have hle : kind x ≤ 6 := by
    cases x with
    | bool value => cases value <;> decide
    | _ => simp [kind]
  omega

theorem key_append_inj {key' : String} (hkey : plainKey key = true) (hkey' : plainKey key' = true)
    (h : key.toList ++ ':' :: rest = key'.toList ++ ':' :: rest') : key = key' ∧ rest = rest' := by
  have htake : ∀ {key : String} {rest : List Char}, plainKey key = true →
      (key.toList ++ ':' :: rest).takeWhile (· ≠ ':') = key.toList := by
    intro key rest hplain
    have hcolon : ':' ∉ key.toList := by
      rw [plainKey,decide_eq_true_eq] at hplain
      exact hplain.1
    rw [takeWhile_append_of_pos,takeWhile_cons_of_neg (by decide),append_nil]
    intro c hc
    rw [decide_eq_true_eq]
    rintro rfl
    exact hcolon hc
  have hsame : key.toList = key'.toList := by rw [← htake hkey,h,htake hkey']
  have hlist := String.toList_inj.mp hsame
  subst hlist
  exact ⟨rfl,(cons.inj (append_cancel_left h)).2⟩

theorem key_append_ne (hkey : plainKey key = true) (rest rest' : List Char) :
    key.toList ++ ':' :: rest ≠ '\x7d' :: rest' := by
  intro h
  rw [plainKey,decide_eq_true_eq] at hkey
  cases hlist : key.toList with
  | nil =>
    rw [hlist] at h
    exact absurd (cons.inj h).1 (by decide)
  | cons c cs =>
    rw [hlist] at h
    obtain rfl := (cons.inj h).1
    exact hkey.2 (by rw [hlist]; rfl)

mutual

/-- The text of a value tells the value, and where it ends. -/
theorem plainText_inj : ∀ (x y : Json) {rest rest' : List Char}, Legible x → Legible y →
    Ends rest → Ends rest' → plainText x ++ rest = plainText y ++ rest' → x = y ∧ rest = rest'
  | .null, y, rest, rest', hx, hy, hends, hends', h => by
    cases y with
    | null => exact ⟨rfl,append_cancel_left h⟩
    | _ => exact absurd (kind_of_append hx hy h) (by grind [kind,kind_bool])
  | .bool value, y, rest, rest', hx, hy, hends, hends', h => by
    cases y with
    | bool value' =>
      obtain rfl : value = value' := by grind [kind_of_append hx hy h,kind_bool]
      exact ⟨rfl,append_cancel_left h⟩
    | _ => exact absurd (kind_of_append hx hy h) (by grind [kind,kind_bool])
  | .number text, y, rest, rest', hx, hy, hends, hends', h => by
    cases y with
    | number text' =>
      have hall : ∀ {text : String}, Legible (.number text) → text.toList.all numberChar = true := by
        intro text htext
        have hnumber : text.toList ≠ [] ∧ text.toList.all numberChar = true := of_decide_eq_true htext
        exact hnumber.2
      obtain ⟨hsame,hrest⟩ := number_append_inj (hall hx) (hall hy) hends hends' h
      exact ⟨congrArg Json.number (String.toList_inj.mp hsame),hrest⟩
    | _ => exact absurd (kind_of_append hx hy h) (by grind [kind,kind_bool])
  | .string text, y, rest, rest', hx, hy, hends, hends', h => by
    cases y with
    | string text' =>
      rw [plainText_string,plainText_string,cons_append,cons_append,append_assoc,append_assoc] at h
      obtain ⟨hsame,hrest⟩ := escaped_quote_inj (cons.inj h).2
      exact ⟨congrArg Json.string (String.toList_inj.mp hsame),hrest⟩
    | _ => exact absurd (kind_of_append hx hy h) (by grind [kind,kind_bool])
  | .array items, y, rest, rest', hx, hy, hends, hends', h => by
    cases y with
    | array items' =>
      rw [plainText,plainText,cons_append,cons_append,append_assoc,append_assoc] at h
      obtain ⟨rfl,hrest⟩ := itemsText_inj items items' hx hy (cons.inj h).2
      exact ⟨rfl,hrest⟩
    | _ => exact absurd (kind_of_append hx hy h) (by grind [kind,kind_bool])
  | .object fields, y, rest, rest', hx, hy, hends, hends', h => by
    cases y with
    | object fields' =>
      rw [plainText,plainText,cons_append,cons_append,append_assoc,append_assoc] at h
      obtain ⟨rfl,hrest⟩ := fieldsText_inj fields fields' hx hy (cons.inj h).2
      exact ⟨rfl,hrest⟩
    | _ => exact absurd (kind_of_append hx hy h) (by grind [kind,kind_bool])

theorem itemsText_inj : ∀ (items items' : List Json) {rest rest' : List Char},
    allItems plainKey printedNumber items = true → allItems plainKey printedNumber items' = true →
    itemsText items ++ ']' :: rest = itemsText items' ++ ']' :: rest' → items = items' ∧ rest = rest'
  | [], [], _, _, _, _, h => ⟨rfl,(List.cons.inj h).2⟩
  | [], item' :: items', _, _, _, h', h => by
    rw [allItems,Bool.and_eq_true] at h'
    rw [itemsText,itemsText,List.append_assoc] at h
    exact absurd h.symm (plainText_append_ne h'.1 (by decide) _ _)
  | item :: items, [], _, _, hx, _, h => by
    rw [allItems,Bool.and_eq_true] at hx
    rw [itemsText,itemsText,List.append_assoc] at h
    exact absurd h (plainText_append_ne hx.1 (by decide) _ _)
  | item :: items, item' :: items', _, _, hx, hy, h => by
    rw [allItems,Bool.and_eq_true] at hx hy
    rw [itemsText,itemsText,List.append_assoc,List.append_assoc,List.cons_append,List.cons_append] at h
    obtain ⟨rfl,htail⟩ := plainText_inj item item' hx.1 hy.1 (ends_comma _) (ends_comma _) h
    obtain ⟨rfl,hrest⟩ := itemsText_inj items items' hx.2 hy.2 (List.cons.inj htail).2
    exact ⟨rfl,hrest⟩

theorem fieldsText_inj : ∀ (fields fields' : List (String × Json)) {rest rest' : List Char},
    allFields plainKey printedNumber fields = true → allFields plainKey printedNumber fields' = true →
    fieldsText fields ++ '\x7d' :: rest = fieldsText fields' ++ '\x7d' :: rest' →
      fields = fields' ∧ rest = rest'
  | [], [], _, _, _, _, h => ⟨rfl,(cons.inj h).2⟩
  | [], (key',value') :: fields', _, _, _, h', h => by
    rw [allFields,and_eq_true,and_eq_true] at h'
    rw [fieldsText,fieldsText,append_assoc] at h
    exact absurd h.symm (key_append_ne h'.1.1 _ _)
  | (key,value) :: fields, [], _, _, hx, _, h => by
    rw [allFields,and_eq_true,and_eq_true] at hx
    rw [fieldsText,fieldsText,append_assoc] at h
    exact absurd h (key_append_ne hx.1.1 _ _)
  | (key,value) :: fields, (key',value') :: fields', _, _, hx, hy, h => by
    rw [allFields,and_eq_true,and_eq_true] at hx hy
    rw [fieldsText,fieldsText,append_assoc,append_assoc,cons_append,cons_append] at h
    obtain ⟨rfl,hvalue⟩ := key_append_inj hx.1.1 hy.1.1 h
    rw [append_assoc,append_assoc,cons_append,cons_append] at hvalue
    obtain ⟨rfl,htail⟩ := plainText_inj value value' hx.1.2 hy.1.2 (ends_comma _) (ends_comma _) hvalue
    obtain ⟨rfl,hrest⟩ := fieldsText_inj fields fields' hx.2 hy.2 (cons.inj htail).2
    exact ⟨rfl,hrest⟩

end

end Values

section Digests
def ordinaryNumber (text : String) : Bool := text ≠ "-0.0"

/-- Values whose keys can be told from the rest of the text, without a negative zero. -/
abbrev Plain (x : Json) : Prop := allTexts plainKey ordinaryNumber x = true

mutual

theorem positiveZeros_eq_self : ∀ x : Json, Plain x → positiveZeros x = x
  | .object fields, h => by rw [positiveZeros,positiveFields_eq_self fields h]
  | .array items, h => by rw [positiveZeros,positiveItems_eq_self items h]
  | .number text, h => by rw [positiveZeros,if_neg (of_decide_eq_true h)]
  | .null, _ | .bool _, _ | .string _, _ => rfl

theorem positiveItems_eq_self : ∀ items : List Json, allItems plainKey ordinaryNumber items = true →
    positiveItems items = items
  | [], _ => rfl
  | item :: items, h => by
    rw [allItems,and_eq_true] at h
    rw [positiveItems,positiveZeros_eq_self item h.1,positiveItems_eq_self items h.2]

theorem positiveFields_eq_self : ∀ fields : List (String × Json),
    allFields plainKey ordinaryNumber fields = true → positiveFields fields = fields
  | [], _ => rfl
  | (_,value) :: fields, h => by
    rw [allFields,and_eq_true,and_eq_true] at h
    rw [positiveFields,positiveZeros_eq_self value h.1.2,positiveFields_eq_self fields h.2]

end

mutual

theorem legible_of_parts : ∀ x : Json, Plain x →
    allTexts (fun _ => true) printedNumber x = true → Legible x
  | .object fields, hplain, hnumbers => legibleFields_of_parts fields hplain hnumbers
  | .array items, hplain, hnumbers => legibleItems_of_parts items hplain hnumbers
  | .number _, _, hnumbers => hnumbers
  | .null, _, _ | .bool _, _, _ | .string _, _, _ => rfl

theorem legibleItems_of_parts : ∀ items : List Json, allItems plainKey ordinaryNumber items = true →
    allItems (fun _ => true) printedNumber items = true → allItems plainKey printedNumber items = true
  | [], _, _ => rfl
  | item :: items, hplain, hnumbers => by
    rw [allItems,and_eq_true] at hplain hnumbers ⊢
    exact ⟨legible_of_parts item hplain.1 hnumbers.1,legibleItems_of_parts items hplain.2 hnumbers.2⟩

theorem legibleFields_of_parts : ∀ fields : List (String × Json),
    allFields plainKey ordinaryNumber fields = true →
    allFields (fun _ => true) printedNumber fields = true → allFields plainKey printedNumber fields = true
  | [], _, _ => rfl
  | (_,value) :: fields, hplain, hnumbers => by
    rw [allFields,and_eq_true,and_eq_true] at hplain hnumbers ⊢
    exact ⟨⟨hplain.1.1,legible_of_parts value hplain.1.2 hnumbers.1.2⟩,
      legibleFields_of_parts fields hplain.2 hnumbers.2⟩

end

/-- Values with plain keys and without a negative zero have the same digest just when they are
equal up to the order of keys, where the hash tells their texts apart. -/
theorem input_digest_identifies (sha256 : String → String) (x y : Json)
    (hsha : sha256 (String.ofList (hashCanonicalJsonValue x)) =
        sha256 (String.ofList (hashCanonicalJsonValue y)) →
      hashCanonicalJsonValue x = hashCanonicalJsonValue y)
    (hnumbers : allTexts (fun _ => true) printedNumber x = true)
    (hnumbers' : allTexts (fun _ => true) printedNumber y = true) (hplain : Plain x) (hplain' : Plain y) :
    computeTaskInputDigest sha256 x = computeTaskInputDigest sha256 y ↔ SameValue x y := by
  rw [SameValue,positiveZeros_eq_self x hplain,positiveZeros_eq_self y hplain']
  constructor
  · intro h
    have htext := hsha h
    rw [hashCanonicalJsonValue_eq,hashCanonicalJsonValue_eq] at htext
    have hx : Legible (sortKeys x) :=
      (allTexts_sortKeys x).trans (legible_of_parts x hplain hnumbers)
    have hy : Legible (sortKeys y) :=
      (allTexts_sortKeys y).trans (legible_of_parts y hplain' hnumbers')
    exact (plainText_inj _ _ hx hy ends_nil ends_nil (by rw [htext])).1
  · intro h
    rw [computeTaskInputDigest,computeTaskInputDigest,hashCanonicalJsonValue_eq,
      hashCanonicalJsonValue_eq,h]

theorem input_digest_identifies_orders :
    computeTaskInputDigest id (.object [("b",.number "2"),("a",.string "x")]) =
        computeTaskInputDigest id (.object [("a",.string "x"),("b",.number "2")]) ∧
      computeTaskInputDigest id (.object [("b",.number "2"),("a",.string "x")]) ≠
        computeTaskInputDigest id (.object [("a",.string "y"),("b",.number "2")]) :=
  ⟨(input_digest_identifies id _ _ (fun h => String.ofList_injective h) (by decide) (by decide)
      (by decide) (by decide)).mpr (by decide),
    fun h => absurd ((input_digest_identifies id _ _ (fun h => String.ofList_injective h) (by decide)
      (by decide) (by decide) (by decide)).mp h) (by decide)⟩

/-- Two inputs that differ have the same digest, and two that are equal have different ones. -/
theorem inputs_share_digest :
    (computeTaskInputDigest id (.object [("a",.number "1"),("b",.number "2")]) =
        computeTaskInputDigest id (.object [("a:1,b",.number "2")]) ∧
      ¬SameValue (.object [("a",.number "1"),("b",.number "2")]) (.object [("a:1,b",.number "2")])) ∧
    computeTaskInputDigest id (.object [("x",.number "0.0")]) ≠
        computeTaskInputDigest id (.object [("x",.number "-0.0")]) ∧
      SameValue (.object [("x",.number "0.0")]) (.object [("x",.number "-0.0")]) := by
  decide +kernel

end Digests
end BuckyOS.TaskManager
