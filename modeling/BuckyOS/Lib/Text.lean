import BuckyOS.Lib.Bytes
import Mathlib.Data.List.DropRight
import Mathlib.Tactic

/-! Text as sequences of Unicode scalar values: trimming of white space at both
ends, the numbers texts stand for, and the UTF-8 byte string of a text. -/
namespace BuckyOS.Text
open List

/-- The Unicode `White_Space` property. -/
def isWhiteSpace (c : Char) : Bool :=
  (9 ≤ c.toNat && c.toNat ≤ 13) || c.toNat == 0x20 || c.toNat == 0x85 || c.toNat == 0xA0 ||
  c.toNat == 0x1680 || (0x2000 ≤ c.toNat && c.toNat ≤ 0x200A) || c.toNat == 0x2028 ||
  c.toNat == 0x2029 || c.toNat == 0x202F || c.toNat == 0x205F || c.toNat == 0x3000

def trimChars (cs : List Char) : List Char :=
  (cs.dropWhile isWhiteSpace).rdropWhile isWhiteSpace

def trim (s : String) : String := String.ofList (trimChars s.toList)

def splitOnce (c : Char) (text : List Char) : Option (List Char × List Char) :=
  if c ∈ text then some (text.takeWhile (· ≠ c),(text.dropWhile (· ≠ c)).drop 1) else none

def digitsValue (text : List Char) : Option ℕ :=
  if text = [] ∨ text.any (fun c => !c.isDigit) then none
  else some (text.foldl (fun n c => 10 * n + (c.toNat - '0'.toNat)) 0)

def padded (base width n : ℕ) : List Char := (Nat.toDigits base n).leftpad width '0'

def debugChar (c : Char) : List Char :=
  if c.toNat = 0 then ['\\','0']
  else if c = '\t' then ['\\','t']
  else if c = '\n' then ['\\','n']
  else if c = '\r' then ['\\','r']
  else if c = '"' ∨ c = '\\' then ['\\',c]
  else if c.toNat < 32 ∨ c.toNat = 127 then
    "\\u\x7b".toList ++ Nat.toDigits 16 c.toNat ++ "\x7d".toList
  else [c]

/-- A text in the debug format of Rust; characters beyond ASCII are left as they are. -/
def debugText (text : String) : String :=
  String.ofList ('"' :: text.toList.flatMap debugChar ++ ['"'])

/-- The number a short text stands for, a sign allowed. -/
def parseSigned (text : List Char) : Option ℤ :=
  if text.head? = some '-' then (digitsValue (text.drop 1)).map (fun n => -(n : ℤ))
  else (digitsValue (if text.head? = some '+' then text.drop 1 else text)).map (fun n => (n : ℤ))

def trimmed (s : Option String) : Option String := (s.map trim).filter (fun v => v ≠ "")

theorem trimChars_trimChars (cs : List Char) : trimChars (trimChars cs) = trimChars cs := by
  have hd : (trimChars cs).dropWhile isWhiteSpace = trimChars cs := by
    rw [dropWhile_eq_self_iff]
    intro hl
    have hpre : trimChars cs <+: cs.dropWhile isWhiteSpace := rdropWhile_prefix _ _
    have hlen : 0 < (cs.dropWhile isWhiteSpace).length := lt_of_lt_of_le hl hpre.length_le
    have hhead : (trimChars cs)[0] = (cs.dropWhile isWhiteSpace)[0] := hpre.getElem hl
    rw [hhead]
    exact dropWhile_get_zero_not _ _ hlen
  rw [trimChars,hd]
  exact rdropWhile_idempotent _ _

@[simp] theorem trim_trim (s : String) : trim (trim s) = trim s := by
  simp [trim,String.toList_ofList,trimChars_trimChars]

variable {s : Option String} {v : String}

theorem trimmed_eq_some (h : trimmed s = some v) : trim v = v ∧ v ≠ "" := by
  cases s with
  | none => cases h
  | some s =>
    simp only [trimmed,Option.map_some,Option.filter_eq_some_iff,Option.some.injEq] at h
    refine ⟨?_,by simpa using h.2⟩
    rw [← h.1,trim_trim]

theorem trimmed_of_trim (ht : trim v = v) (hv : v ≠ "") : trimmed (some v) = some v := by
  simp [trimmed,ht,hv]

theorem trimmed_trimmed (h : trimmed s = some v) : trimmed (some v) = some v :=
  trimmed_of_trim (trimmed_eq_some h).1 (trimmed_eq_some h).2

def utf8 (s : String) : Bytes := s.toList.flatMap String.utf8EncodeChar

theorem utf8_injective {s t : String} (h : utf8 s = utf8 t) : s = t := by
  have hb : s.toList.utf8Encode = t.toList.utf8Encode := congrArg toByteArray h
  rw [String.utf8Encode_toList,String.utf8Encode_toList] at hb
  exact String.toByteArray_inj.mp hb

theorem zero_mem_utf8EncodeChar {c : Char} (h : (0 : UInt8) ∈ String.utf8EncodeChar c) :
    c = Char.ofNat 0 := by
  have hbyte : ∀ n, n < 256 → (0 : UInt8) = UInt8.ofNat n → n = 0 := by
    intro n hn heq
    have hnat := congrArg UInt8.toNat heq
    rw [UInt8.toNat_ofNat',Nat.mod_eq_of_lt hn] at hnat
    exact hnat.symm
  unfold String.utf8EncodeChar at h
  dsimp only at h
  split_ifs at h
  · have hzero := hbyte _ (by omega) (mem_singleton.mp h)
    exact Char.ext (UInt32.toNat_inj.mp hzero)
  all_goals
    simp only [mem_cons,not_mem_nil,or_false] at h
    obtain ⟨n,hn,hlow,heq⟩ : ∃ n, n < 256 ∧ 0 < n ∧ (0 : UInt8) = UInt8.ofNat n := by
      repeat' first
        | exact ⟨_,by omega,by omega,h⟩
        | (rcases h with h | h)
    exact absurd (hbyte n hn heq) hlow.ne'

def fromUtf8 (bs : Bytes) : Option String :=
  bs.toByteArray.utf8Decode?.map (fun cs => String.ofList cs.toList)

section Cut
variable {c : Char} {a b text : List Char}

theorem splitOnce_append (h : c ∉ a) (b : List Char) : splitOnce c (a ++ c :: b) = some (a,b) := by
  have hne : ∀ d ∈ a, (decide (d ≠ c)) = true := by
    rintro d hd
    exact decide_eq_true (fun heq => h (heq ▸ hd))
  rw [splitOnce,if_pos (by simp),takeWhile_append_of_pos hne,dropWhile_append_of_pos hne]
  simp

theorem splitOnce_eq_none (h : c ∉ a) : splitOnce c a = none := if_neg h

theorem splitOnce_eq_some (h : splitOnce c text = some (a,b)) : c ∉ a ∧ text = a ++ c :: b := by
  by_cases hc : c ∈ text
  · obtain ⟨u,v,rfl,hu⟩ := eq_append_cons_of_mem hc
    rw [splitOnce_append hu] at h
    obtain ⟨rfl,rfl⟩ := Prod.mk.inj (Option.some.inj h)
    exact ⟨hu,rfl⟩
  · rw [splitOnce_eq_none hc] at h
    cases h

end Cut

section Digits
theorem toList_toString (n : ℕ) : (toString n).toList = Nat.toDigits 10 n := by
  rw [Nat.toString_eq_repr,Nat.toList_repr]

theorem digitsValue_toDigits (n : ℕ) : digitsValue (Nat.toDigits 10 n) = some n := by
  have hne : Nat.toDigits 10 n ≠ [] := Nat.toDigits_ne_nil
  have hdigits : (Nat.toDigits 10 n).any (fun c => !c.isDigit) = false := by
    rw [any_eq_false]
    intro c hc
    simp [Nat.isDigit_of_mem_toDigits (by decide) (by decide) hc]
  rw [digitsValue,if_neg (by simp [hne,hdigits])]
  have hvalue : Nat.ofDigitChars 10 (Nat.toDigits 10 n) 0 = n := by simp
  exact congrArg some hvalue

theorem inRange_of_parseSigned {text : List Char} {n : ℤ} (h : parseSigned text = some n)
    (hlow : -2 ^ 63 ≤ n) (hhigh : n < 2 ^ 63) :
    (parseSigned text).filter (fun n => -2 ^ 63 ≤ n ∧ n < 2 ^ 63) = some n := by
  rw [h,Option.filter_some,if_pos (decide_eq_true ⟨hlow,hhigh⟩)]

section
variable {c : Char} (hc : c.isDigit = false) (n : ℕ)
include hc

theorem not_mem_toDigits : c ∉ Nat.toDigits 10 n := by
  intro h
  simp [Nat.isDigit_of_mem_toDigits (by decide) (by decide) h] at hc

theorem head?_toDigits_ne : (Nat.toDigits 10 n).head? ≠ some c :=
  fun h => not_mem_toDigits hc n (mem_of_mem_head? h)

end

theorem parseSigned_toDigits (n : ℕ) : parseSigned (Nat.toDigits 10 n) = some (n : ℤ) := by
  rw [parseSigned,if_neg (head?_toDigits_ne (by decide) n),if_neg (head?_toDigits_ne (by decide) n),
    digitsValue_toDigits]
  rfl

end Digits

section Padding
variable {base width n m : ℕ}

theorem ofDigitChars_padded (width n : ℕ) : Nat.ofDigitChars 10 (padded 10 width n) 0 = n := by
  have hzeros : ∀ (k : ℕ) (digits : List Char),
      Nat.ofDigitChars 10 (replicate k '0' ++ digits) 0 = Nat.ofDigitChars 10 digits 0 := by
    intro k digits
    induction k with
    | zero => rfl
    | succ k ih => exact ih
  rw [padded,leftpad,hzeros,Nat.ofDigitChars_ten_toDigits]

theorem isDigit_of_mem_padded {c : Char} (h : c ∈ padded 10 width n) : c.isDigit = true := by
  rcases mem_append.mp h with h | h
  · rw [eq_of_mem_replicate h]
    rfl
  · exact Nat.isDigit_of_mem_toDigits (by decide) (by decide) h

theorem append_lt_of_length {l l' s s' : List Char} (hlength : l.length = l'.length) (h : l < l') :
    l ++ s < l' ++ s' := by
  induction l generalizing l' with
  | nil =>
    rw [length_nil,eq_comm,length_eq_zero_iff] at hlength
    subst hlength
    cases h
  | cons a l ih =>
    obtain _ | ⟨b,l'⟩ := l'
    · cases hlength
    · rw [cons_append,cons_append,cons_lt_cons_iff]
      rcases cons_lt_cons_iff.mp h with hlt | ⟨rfl,hlt⟩
      · exact .inl hlt
      · exact .inr ⟨rfl,ih (Nat.succ.inj hlength) hlt⟩

theorem length_padded (hbase : 1 < base) (h : n < base ^ (width + 1)) :
    (padded base (width + 1) n).length = width + 1 := by
  rw [padded,length_leftpad]
  exact max_eq_left ((Nat.length_toDigits_le_iff hbase (Nat.succ_pos width)).mpr h)

theorem padded_succ (hbase : 1 < base) (width n : ℕ) : padded base (width + 2) n =
    padded base (width + 1) (n / base) ++ [(n % base).digitChar] := by
  rcases Nat.lt_or_ge n base with hlt | hge
  · rw [padded,padded,Nat.div_eq_of_lt hlt,Nat.mod_eq_of_lt hlt,Nat.toDigits_of_lt_base hlt,
      Nat.toDigits_of_lt_base (Nat.zero_lt_of_lt hbase)]
    simp [leftpad,replicate_succ']
  · rw [padded,padded,Nat.toDigits_of_base_le hbase hge]
    simp [leftpad]

theorem digitChar_lt (hlt : n < m) (hm : m < 16) : n.digitChar < m.digitChar := by
  revert n
  interval_cases m <;> decide

/-- Digits of one width are in the order of the numbers. -/
theorem padded_lt (hbase : 1 < base) (hdigits : base ≤ 16) (hlt : n < m) (hm : m < base ^ (width + 1)) :
    padded base (width + 1) n < padded base (width + 1) m := by
  induction width generalizing n m with
  | zero =>
    rw [zero_add,pow_one] at hm
    rw [padded,padded,Nat.toDigits_of_lt_base hm,Nat.toDigits_of_lt_base (hlt.trans hm)]
    exact cons_lt_cons_iff.mpr (.inl (digitChar_lt hlt (hm.trans_le hdigits)))
  | succ width ih =>
    have hpos : 0 < base := Nat.zero_lt_of_lt hbase
    have hm' : m / base < base ^ (width + 1) := Nat.div_lt_of_lt_mul (by rwa [← pow_succ'])
    rw [padded_succ hbase,padded_succ hbase]
    rcases (Nat.div_le_div_right hlt.le : n / base ≤ m / base).lt_or_eq with hdiv | hdiv
    · refine append_lt_of_length ?_ (ih hdiv hm')
      rw [length_padded hbase (hdiv.trans hm'),length_padded hbase hm']
    · rw [hdiv]
      refine append_left_lt (cons_lt_cons_iff.mpr (.inl (digitChar_lt ?_ ?_)))
      · have hn := Nat.div_add_mod n base
        have hm := Nat.div_add_mod m base
        rw [hdiv] at hn
        omega
      · exact (Nat.mod_lt m hpos).trans_le hdigits

end Padding
example : trim " a b\t" = "a b" := by decide

end BuckyOS.Text
