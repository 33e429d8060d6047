import BuckyOS.Lib.Text

/-! The text format of log records. A record is written as one line with its fields one after the
other, unescaped, and a log file is read back line by line. -/
namespace BuckyOS
open List Text Except
open Text (isWhiteSpace trimChars)
namespace Slog
open Text (splitOnce_append splitOnce_eq_none splitOnce_eq_some)

section Code
inductive LogLevel
  | off | error | warn | info | debug | trace
  deriving DecidableEq

def LogLevel.text : LogLevel → List Char
  | off => "off".toList
  | trace => "trace".toList
  | debug => "debug".toList
  | info => "info".toList
  | warn => "warn".toList
  | error => "error".toList

def LogLevel.fromStr (level : List Char) : Except (List Char) LogLevel :=
  match [off,trace,debug,info,warn,error].find? (fun l => l.text = level) with
  | some l => .ok l
  | none => .error ("invalid log level: ".toList ++ level)

/-- The printing and reading of local times, which the date library does. A printed time has no
blanks, and a time the library represents is read back as it was. -/
structure LogTimeHelper where
  timeToLocalString : ℕ → List Char
  localStringToTime : List Char → Except (List Char) ℕ
  Representable : ℕ → Prop
  plain : ∀ time, ' ' ∉ timeToLocalString time ∧ '\n' ∉ timeToLocalString time
  read : ∀ time, Representable time → localStringToTime (timeToLocalString time) = .ok time

structure SystemLogRecord where
  level : LogLevel
  target : List Char
  time : ℕ
  file : Option (List Char)
  line : Option UInt32
  content : List Char
  deriving DecidableEq

namespace SystemLogRecord
variable (record : SystemLogRecord)

def hasFilePos : Bool := record.file.isSome || record.line.isSome

def fileText : List Char := record.file.getD []

def lineText : List Char := Nat.toDigits 10 (record.line.getD 0).toNat

end SystemLogRecord

def bracketed (text : List Char) : List Char := '[' :: (text ++ [']'])

def body (record : SystemLogRecord) : List Char :=
  if record.hasFilePos then
    '<' :: (record.fileText ++ ':' :: (record.lineText ++ '>' :: ' ' :: record.content))
  else record.content

def formatRecord (helper : LogTimeHelper) (record : SystemLogRecord) : List Char :=
  helper.timeToLocalString record.time ++ ' ' :: (bracketed record.level.text ++
    ' ' :: (bracketed record.target ++ ' ' :: body record)) ++ ['\n']

/-- The parts of a text between blanks, the last of at most `n` parts with all that is left. -/
def splitn : ℕ → List Char → List (List Char)
  | 0, _ => []
  | 1, text => [text]
  | n + 2, text =>
    match Text.splitOnce ' ' text with
    | none => [text]
    | some (part,rest) => part :: splitn (n + 1) rest

def trimBrackets (text : List Char) : List Char :=
  (text.dropWhile (fun c => c = '[' || c = ']')).rdropWhile (fun c => c = '[' || c = ']')

def trimEnd (text : List Char) : List Char := text.rdropWhile Text.isWhiteSpace

def parseU32 (text : List Char) : Except (List Char) UInt32 :=
  let digits := if text.head? = some '+' then text.tail else text
  if text = [] then .error "cannot parse integer from empty string".toList
  else if digits = [] ∨ digits.any (fun c => !c.isDigit) then
    .error "invalid digit found in string".toList
  else if Nat.ofDigitChars 10 digits 0 < 2^32 then .ok (UInt32.ofNat (Nat.ofDigitChars 10 digits 0))
  else .error "number too large to fit in target type".toList

def splitLastColon (text : List Char) : List Char × List Char :=
  match Text.splitOnce ':' text.reverse with
  | none => (text,[])
  | some (after,before) => (after.reverse,before.reverse)

def parseFileLine (text : List Char) : Except (List Char) (List Char × UInt32) :=
  let line := Text.trimChars (splitLastColon text).1
  let file := Text.trimChars (splitLastColon text).2
  if file = [] ∨ line = [] then .error ("invalid file and line format: ".toList ++ text)
  else
    match parseU32 line with
    | .ok n => .ok (file,n)
    | .error e =>
      .error ("invalid line number in file and line format: ".toList ++ text ++ ", ".toList ++ e)

def parseContent (line part : List Char) :
    Except (List Char) (Option (List Char) × Option UInt32 × List Char) :=
  if part.head? = some '<' then
    match Text.splitOnce '>' part with
    | none => .error ("invalid log line format, missing '>': ".toList ++ line)
    | some (before,after) =>
      match parseFileLine before.tail with
      | .error e => .error e
      | .ok (file,n) =>
        .ok (some file,some n,(Text.trimChars after).rdropWhile (fun c => c = '\n'))
  else .ok (none,none,part.rdropWhile (fun c => c = '\n'))

def parseRecord (helper : LogTimeHelper) (line : List Char) :
    Except (List Char) SystemLogRecord :=
  match splitn 4 line with
  | [timePart,levelPart,targetPart,contentPart] => do
    let time ← helper.localStringToTime timePart
    let level ← LogLevel.fromStr (trimBrackets levelPart)
    let (file,n,content) ← parseContent line (Text.trimChars contentPart)
    return ⟨level,trimBrackets targetPart,time,file,n,content⟩
  | _ => .error ("invalid log line format: ".toList ++ line)

/-- The lines of a file that are complete, each without its line break, where some characters of the
first one have been read. -/
def linesFrom (current : List Char) : List Char → List (List Char)
  | [] => []
  | c :: file =>
    if c = '\n' then current :: linesFrom [] file else linesFrom (current ++ [c]) file

/-- The records that are read from a file. A line that is no record is skipped. -/
def readRecords (helper : LogTimeHelper) (file : List Char) : List SystemLogRecord :=
  (linesFrom [] file).filterMap (fun line => (parseRecord helper (trimEnd (line ++ ['\n']))).toOption)

end Code

section Texts
variable {p : Char → Bool} {c : Char} {a b text : List Char}

theorem rdropWhile_append_cons (hc : p c = false) (a b : List Char) :
    (a ++ c :: b).rdropWhile p = a ++ c :: b.rdropWhile p := by
  simp only [rdropWhile,reverse_append,reverse_cons,append_assoc,dropWhile_append]
  by_cases hb : (b.reverse.dropWhile p).isEmpty = true
  · simp [hc,List.isEmpty_iff.mp hb]
  · simp [hb]

theorem rdropWhile_append_all (h : ∀ c ∈ b, p c = true) (a : List Char) :
    (a ++ b).rdropWhile p = a.rdropWhile p := by
  have hall : ∀ c ∈ b.reverse, p c = true := fun c hc => h c (mem_reverse.mp hc)
  rw [rdropWhile,reverse_append,dropWhile_append_of_pos hall]
  rfl

theorem mem_trimChars (h : c ∈ trimChars text) : c ∈ text :=
  (dropWhile_sublist _).mem (( rdropWhile_prefix _ _).sublist.mem h)

theorem mem_trimBrackets (h : c ∈ trimBrackets text) : c ∈ text :=
  (dropWhile_sublist _).mem (( rdropWhile_prefix _ _).sublist.mem h)

theorem trimChars_cons_of_pos (hc : isWhiteSpace c = true) (text : List Char) :
    trimChars (c :: text) = trimChars text := by
  simp [trimChars,hc]

theorem trimChars_cons_of_neg (hc : isWhiteSpace c = false) (text : List Char) :
    trimChars (c :: text) = c :: trimEnd text := by
  have hdrop : (c :: text).dropWhile isWhiteSpace = c :: text := by simp [hc]
  rw [trimChars,hdrop]
  exact rdropWhile_append_cons hc [] text

theorem trimChars_eq_nil_iff : trimChars text = [] ↔ ∀ c ∈ text, isWhiteSpace c = true := by
  induction text with
  | nil => simp [trimChars]
  | cons c text ih =>
    cases hc : isWhiteSpace c with
    | true => simp [trimChars_cons_of_pos hc,ih,hc]
    | false => simp [trimChars_cons_of_neg hc,hc]

theorem trimChars_append_all (h : ∀ c ∈ b, isWhiteSpace c = true) (a : List Char) :
    trimChars (a ++ b) = trimChars a := by
  induction a with
  | nil => rw [nil_append,trimChars_eq_nil_iff.mpr h,trimChars,dropWhile_nil,rdropWhile_nil]
  | cons c a ih =>
    rw [cons_append]
    cases hc : isWhiteSpace c with
    | true => rw [trimChars_cons_of_pos hc,trimChars_cons_of_pos hc,ih]
    | false =>
      rw [trimChars_cons_of_neg hc,trimChars_cons_of_neg hc,trimEnd,rdropWhile_append_all h]
      rfl

theorem trimChars_trimEnd (text : List Char) : trimChars (trimEnd text) = trimChars text := by
  have hsplit : text.rdropWhile isWhiteSpace ++ text.rtakeWhile isWhiteSpace = text :=
    rdropWhile_append_rtakeWhile
  conv_rhs => rw [← hsplit]
  exact (trimChars_append_all (fun c hc => mem_rtakeWhile_imp hc) _).symm

theorem rdropWhile_trimChars (text : List Char) :
    (trimChars text).rdropWhile (fun c => c = '\n') = trimChars text := by
  rw [rdropWhile_eq_self_iff]
  intro hne hlast
  refine rdropWhile_last_not isWhiteSpace _ hne ?_
  have heq : (trimChars text).getLast hne = '\n' := by simpa using hlast
  exact heq ▸ (by decide : isWhiteSpace '\n' = true)

theorem trimEnd_cons (h : trimChars text ≠ []) (c : Char) : trimEnd (c :: text) = c :: trimEnd text := by
  have hne : ¬ (text.reverse.dropWhile isWhiteSpace).isEmpty = true := by
    rw [List.isEmpty_iff,List.dropWhile_eq_nil_iff]
    intro hall
    exact h (trimChars_eq_nil_iff.mpr fun d hd => hall d (mem_reverse.mpr hd))
  simp [trimEnd,rdropWhile,dropWhile_append,hne]

theorem trimBrackets_bracketed (text : List Char) : trimBrackets (bracketed text) = trimBrackets text := by
  unfold trimBrackets bracketed
  rw [dropWhile_cons_of_pos (by decide),dropWhile_append]
  split_ifs with hempty
  · rw [List.isEmpty_iff.mp hempty]
    decide
  · exact rdropWhile_concat_pos _ _ _ (by decide)

variable {current d e : List Char}

theorem linesFrom_append_newline (h : '\n' ∉ text) :
    linesFrom current (text ++ ['\n']) = [current ++ text] := by
  induction text generalizing current with
  | nil => simp [linesFrom]
  | cons c text ih =>
    have hc : c ≠ '\n' := fun heq => h (heq ▸ mem_cons_self)
    rw [cons_append,linesFrom,if_neg hc,ih (fun hmem => h (mem_cons_of_mem _ hmem))]
    simp

theorem newline_not_mem_linesFrom {line : List Char} (hcurrent : '\n' ∉ current)
    (h : line ∈ linesFrom current text) : '\n' ∉ line := by
  induction text generalizing current with
  | nil => cases h
  | cons c text ih =>
    rw [linesFrom] at h
    split_ifs at h with hc
    · rcases mem_cons.mp h with rfl | h
      · exact hcurrent
      · exact ih not_mem_nil h
    · exact ih (by simp [hcurrent,Ne.symm hc]) h

theorem splitn_of_parts (ha : ' ' ∉ a) (hb : ' ' ∉ b) (hd : ' ' ∉ d) :
    splitn 4 (a ++ ' ' :: (b ++ ' ' :: (d ++ ' ' :: e))) = [a,b,d,e] := by
  simp [splitn,splitOnce_append ha,splitOnce_append hb,splitOnce_append hd]

theorem splitn_of_three (ha : ' ' ∉ a) (hb : ' ' ∉ b) (hd : ' ' ∉ d) :
    splitn 4 (a ++ ' ' :: (b ++ ' ' :: d)) = [a,b,d] := by
  simp [splitn,splitOnce_append ha,splitOnce_append hb,splitOnce_eq_none hd]

theorem splitn_eq_four (h : splitn 4 text = [a,b,d,e]) : ' ' ∉ d ∧ ∀ c, c ∈ d ∨ c ∈ e → c ∈ text := by
  simp only [splitn] at h
  split at h
  · simp at h
  · rename_i part rest hfirst
    obtain ⟨-,rfl⟩ := splitOnce_eq_some hfirst
    split at h
    · simp at h
    · rename_i part' rest' hsecond
      obtain ⟨-,rfl⟩ := splitOnce_eq_some hsecond
      split at h
      · simp at h
      · rename_i part'' rest'' hthird
        obtain ⟨hfree,rfl⟩ := splitOnce_eq_some hthird
        simp only [cons.injEq,and_true] at h
        obtain ⟨rfl,rfl,rfl,rfl⟩ := h
        refine ⟨hfree,fun c hc => ?_⟩
        rcases hc with hc | hc <;> simp [hc]

end Texts

section Fields
variable {helper : LogTimeHelper} {record : SystemLogRecord} {line part : List Char}

theorem mem_splitLastColon {c : Char} {text : List Char} (h : c ∈ (splitLastColon text).2) : c ∈ text := by
  unfold splitLastColon at h
  split at h
  · cases h
  · rename_i after before hsplit
    have htext := (splitOnce_eq_some hsplit).2
    rw [← mem_reverse,htext]
    simp [mem_reverse.mp h]

theorem parseFileLine_eq_ok {text file : List Char} {n : UInt32}
    (h : parseFileLine text = .ok (file,n)) : file = trimChars (splitLastColon text).2 := by
  unfold parseFileLine at h
  dsimp only at h
  split_ifs at h
  split at h
  · exact (Prod.mk.inj (ok.inj h)).1.symm
  · cases h

theorem parseContent_eq_ok {file : Option (List Char)} {n : Option UInt32} {content : List Char}
    (h : parseContent line part = .ok (file,n,content)) :
    (∀ f ∈ file, '>' ∉ f ∧ ∀ c ∈ f, c ∈ part) ∧ ∀ c ∈ content, c ∈ part := by
  unfold parseContent at h
  split_ifs at h with hopen
  · split at h
    · cases h
    · rename_i before after hsplit
      obtain ⟨hfree,rfl⟩ := splitOnce_eq_some hsplit
      split at h
      · cases h
      · rename_i name m hname
        obtain ⟨rfl,-,rfl⟩ := by simpa using ok.inj h
        have hbefore : ∀ c ∈ name, c ∈ before := by
          intro c hc
          rw [parseFileLine_eq_ok hname] at hc
          exact mem_of_mem_tail (mem_splitLastColon (mem_trimChars hc))
        constructor
        · intro f hf
          obtain rfl := Option.some.inj hf
          exact ⟨fun hmem => hfree (hbefore _ hmem),fun c hc => by simp [hbefore c hc]⟩
        · intro c hc
          rw [rdropWhile_trimChars] at hc
          simp [mem_trimChars hc]
  · obtain ⟨rfl,-,rfl⟩ := by simpa using ok.inj h
    refine ⟨fun f hf => (by cases hf),fun c hc => ?_⟩
    exact ( rdropWhile_prefix _ _).sublist.mem hc

theorem parseRecord_plain (h : parseRecord helper line = .ok record) (hline : '\n' ∉ line) :
    (' ' ∉ record.target ∧ '\n' ∉ record.target) ∧ (∀ f ∈ record.file, '\n' ∉ f) ∧ '\n' ∉ record.content := by
  unfold parseRecord at h
  split at h
  · rename_i timePart levelPart targetPart contentPart hparts
    obtain ⟨hblank,hmem⟩ := splitn_eq_four hparts
    cases htime : helper.localStringToTime timePart with
    | error e => rw [htime] at h; cases h
    | ok time =>
      cases hlevel : LogLevel.fromStr (trimBrackets levelPart) with
      | error e => rw [htime,hlevel] at h; cases h
      | ok level =>
        rcases hcontent : parseContent line (trimChars contentPart) with e | ⟨file,n,content⟩
        · rw [htime,hlevel,hcontent] at h; cases h
        · rw [htime,hlevel,hcontent] at h
          obtain rfl := ok.inj h
          obtain ⟨hfile,hchars⟩ := parseContent_eq_ok hcontent
          refine ⟨⟨fun hmem' => hblank (mem_trimBrackets hmem'),fun hmem' => hline ?_⟩,
            fun f hf hmem' => hline ?_,fun hmem' => hline ?_⟩
          · exact hmem _ (.inl (mem_trimBrackets hmem'))
          · exact hmem _ (.inr (mem_trimChars ((hfile f hf).2 _ hmem')))
          · exact hmem _ (.inr (mem_trimChars (hchars _ hmem')))
  · cases h

end Fields

section RoundTrip
variable (helper : LogTimeHelper) (record : SystemLogRecord)

/-- The condition on a record: its target has no blank, no line break and no bracket at its ends; its
content has no line break and no blanks at its ends; it has a file that can be read back together with
a line number, or neither, and in that case some content that does not look like a position. -/
structure Plain : Prop where
  target : ' ' ∉ record.target ∧ '\n' ∉ record.target ∧ trimBrackets record.target = record.target
  content : '\n' ∉ record.content ∧ Text.trimChars record.content = record.content
  position : (record.file = none ∧ record.line = none ∧ record.content ≠ [] ∧
      record.content.head? ≠ some '<') ∨
    ∃ file, record.file = some file ∧ record.line.isSome = true ∧ file ≠ [] ∧
      Text.trimChars file = file ∧ '>' ∉ file ∧ '\n' ∉ file

def lineOf : List Char :=
  helper.timeToLocalString record.time ++ ' ' :: (bracketed record.level.text ++
    ' ' :: (bracketed record.target ++ ' ' :: body record))

theorem level_plain (level : LogLevel) : ' ' ∉ bracketed level.text ∧ '\n' ∉ bracketed level.text ∧
    LogLevel.fromStr (trimBrackets level.text) = .ok level := by
  cases level <;> decide

theorem digit_of_mem_lineText {c : Char} (h : c ∈ record.lineText) : c.isDigit = true :=
  Nat.isDigit_of_mem_toDigits (b := 10) (by decide) (by decide) h

theorem digit_ne {c d : Char} (hc : c.isDigit = true) (hd : d.isDigit = false) : c ≠ d := by
  rintro rfl
  rw [hc] at hd
  cases hd

theorem isWhiteSpace_of_isDigit {c : Char} (h : c.isDigit = true) : isWhiteSpace c = false := by
  have hbounds : 48 ≤ c.toNat ∧ c.toNat ≤ 57 := by
    simp only [Char.isDigit,Bool.and_eq_true,decide_eq_true_eq,ge_iff_le] at h
    exact h
  simp only [isWhiteSpace,Bool.or_eq_false_iff,Bool.and_eq_false_iff,decide_eq_false_iff_not,
    beq_eq_false_iff_ne]
  omega

variable {record}

open SystemLogRecord (fileText hasFilePos)

theorem newline_not_mem_body (hfile : ∀ f ∈ record.file, '\n' ∉ f) (hcontent : '\n' ∉ record.content) :
    '\n' ∉ body record := by
  have hname : '\n' ∉ record.fileText := by
    rw [fileText]
    cases hf : record.file with
    | none => simp
    | some f => exact hfile f hf
  have hdigits : '\n' ∉ record.lineText := fun hmem =>
    digit_ne (digit_of_mem_lineText record hmem) (by decide : ('\n').isDigit = false) rfl
  unfold body
  split_ifs
  · simp [hname,hdigits,hcontent]
  · exact hcontent

theorem newline_not_mem_lineOf (htarget : '\n' ∉ record.target)
    (hfile : ∀ f ∈ record.file, '\n' ∉ f) (hcontent : '\n' ∉ record.content) :
    '\n' ∉ lineOf helper record := by
  have hlevel := (level_plain record.level).2.1
  have htarget' : '\n' ∉ bracketed record.target := by simp [bracketed,htarget]
  simp [lineOf,(helper.plain record.time).2,hlevel,htarget',newline_not_mem_body hfile hcontent]

theorem trimEnd_lineOf : trimEnd (lineOf helper record ++ ['\n']) =
      helper.timeToLocalString record.time ++ ' ' :: (bracketed record.level.text ++
        ' ' :: (bracketed record.target ++
          if trimChars (body record) = [] then [] else ' ' :: trimEnd (body record))) := by
  have hline : lineOf helper record ++ ['\n'] =
      (helper.timeToLocalString record.time ++ ' ' :: (bracketed record.level.text ++
        ' ' :: ('[' :: record.target))) ++ ']' :: ((' ' :: body record) ++ ['\n']) := by
    simp [lineOf,bracketed]
  rw [hline,trimEnd,rdropWhile_append_cons (by decide),rdropWhile_concat_pos _ _ _ (by decide)]
  have hrest : (' ' :: body record).rdropWhile isWhiteSpace =
      if trimChars (body record) = [] then [] else ' ' :: trimEnd (body record) := by
    split_ifs with hempty
    · refine rdropWhile_eq_nil_iff.mpr fun c hc => ?_
      rcases mem_cons.mp hc with rfl | hc
      · decide
      · exact trimChars_eq_nil_iff.mp hempty c hc
    · exact trimEnd_cons hempty ' '
  rw [hrest]
  simp [bracketed]

/-- A line is read as the record it was written from exactly if the brackets are removed from its
target alone, something stands after the target, and it is read as the position and the content. -/
theorem parseRecord_lineOf (htime : helper.Representable record.time) (hblank : ' ' ∉ record.target) :
    parseRecord helper (trimEnd (lineOf helper record ++ ['\n'])) = .ok record ↔
      trimBrackets record.target = record.target ∧ trimChars (body record) ≠ [] ∧
        parseContent (trimEnd (lineOf helper record ++ ['\n'])) (trimChars (body record)) =
          .ok (record.file,record.line,record.content) := by
  obtain ⟨hlevel,-,hread⟩ := level_plain record.level
  have hblank' : ' ' ∉ bracketed record.target := by simp [bracketed,hblank]
  have htext : trimEnd (lineOf helper record ++ ['\n']) = _ := trimEnd_lineOf helper
  unfold parseRecord
  by_cases hempty : trimChars (body record) = []
  · have hparts : splitn 4 (trimEnd (lineOf helper record ++ ['\n'])) =
        [helper.timeToLocalString record.time,bracketed record.level.text,bracketed record.target] := by
      rw [htext,if_pos hempty,append_nil]
      exact splitn_of_three (helper.plain record.time).1 hlevel hblank'
    rw [hparts]
    simp [hempty]
  · have hparts : splitn 4 (trimEnd (lineOf helper record ++ ['\n'])) =
        [helper.timeToLocalString record.time,bracketed record.level.text,
          bracketed record.target,trimEnd (body record)] := by
      rw [htext,if_neg hempty]
      exact splitn_of_parts (helper.plain record.time).1 hlevel hblank'
    rw [hparts]
    simp only [helper.read _ htime,hread,trimBrackets_bracketed,trimChars_trimEnd]
    rcases parseContent (trimEnd (lineOf helper record ++ ['\n'])) (trimChars (body record))
      with e | ⟨file,n,content⟩
    · simp [hempty,bind,Except.bind]
    · obtain ⟨level,target,time,file',line',content'⟩ := record
      simp [hempty,bind,Except.bind,pure,Except.pure]

theorem trimChars_lineText (record : SystemLogRecord) :
    trimChars record.lineText = record.lineText ∧ record.lineText ≠ [] := by
  have hne : record.lineText ≠ [] := Nat.toDigits_ne_nil
  have hdigits : ∀ c ∈ record.lineText, isWhiteSpace c = false :=
    fun c hc => isWhiteSpace_of_isDigit (digit_of_mem_lineText record hc)
  refine ⟨?_,hne⟩
  obtain ⟨c,text,htext⟩ := exists_cons_of_ne_nil hne
  rw [htext] at hdigits ⊢
  rw [trimChars_cons_of_neg (hdigits c mem_cons_self),trimEnd,rdropWhile_eq_self_iff.mpr]
  intro hl
  simp [hdigits _ (mem_cons_of_mem c (getLast_mem hl))]

theorem parseU32_lineText (record : SystemLogRecord) :
    parseU32 record.lineText = .ok (record.line.getD 0) := by
  obtain ⟨-,hne⟩ := trimChars_lineText record
  have hplus : record.lineText.head? ≠ some '+' := fun hhead =>
    digit_ne (digit_of_mem_lineText record (mem_of_head? hhead)) (by decide : ('+').isDigit = false) rfl
  have hdigits : record.lineText.any (fun c => !c.isDigit) = false := by
    simpa using fun c hc => digit_of_mem_lineText record hc
  have hvalue : Nat.ofDigitChars 10 record.lineText 0 = (record.line.getD 0).toNat :=
    Nat.ofDigitChars_ten_toDigits
  simp only [parseU32,if_neg hplus,hne,hdigits,Bool.false_eq_true,or_self,if_false,hvalue,
    if_pos (UInt32.toNat_lt (record.line.getD 0))]
  simp

theorem parseFileLine_position (record : SystemLogRecord) :
    parseFileLine (record.fileText ++ ':' :: record.lineText) =
      if trimChars record.fileText = [] then
        .error ("invalid file and line format: ".toList ++ (record.fileText ++ ':' :: record.lineText))
      else .ok (trimChars record.fileText,record.line.getD 0) := by
  have hcolon : ':' ∉ record.lineText.reverse := fun hmem =>
    digit_ne (digit_of_mem_lineText record (mem_reverse.mp hmem)) (by decide : (':').isDigit = false) rfl
  have hsplit : splitLastColon (record.fileText ++ ':' :: record.lineText) =
      (record.lineText,record.fileText) := by
    rw [splitLastColon,reverse_append,reverse_cons,append_assoc,singleton_append,splitOnce_append hcolon]
    simp
  obtain ⟨htrim,hne⟩ := trimChars_lineText record
  simp only [parseFileLine,hsplit,htrim,hne,or_false,parseU32_lineText]

theorem parseContent_open {text after : List Char} (l : List Char) (h : '>' ∉ text) :
    parseContent l ('<' :: text ++ '>' :: after) =
      match parseFileLine text with
      | .error e => .error e
      | .ok (file,n) => .ok (some file,some n,trimChars after) := by
  have hfree : '>' ∉ '<' :: text := by simp [h]
  have hhead : ('<' :: text ++ '>' :: after).head? = some '<' := rfl
  rw [parseContent,if_pos hhead,splitOnce_append hfree,← rdropWhile_trimChars after]
  rfl

theorem parseContent_position (l : List Char) (hpos : record.hasFilePos = true) :
    parseContent l (trimChars (body record)) = .ok (record.file,record.line,record.content) ↔
      trimChars record.content = record.content ∧
        ∃ file, record.file = some file ∧ record.line.isSome = true ∧ file ≠ [] ∧
          trimChars file = file ∧ '>' ∉ file := by
  have hbody : trimChars (body record) =
      '<' :: (record.fileText ++ ':' :: record.lineText) ++ '>' :: trimEnd (' ' :: record.content) := by
    rw [body,if_pos hpos,trimChars_cons_of_neg (by decide),trimEnd,← cons_append,
      ← append_assoc,rdropWhile_append_cons (by decide)]
    rfl
  have hdigits : '>' ∉ record.lineText := fun hmem =>
    digit_ne (digit_of_mem_lineText record hmem) (by decide : ('>').isDigit = false) rfl
  constructor
  · intro h
    have hfree : '>' ∉ record.fileText := by
      rw [fileText]
      cases hf : record.file with
      | none => simp
      | some f => exact ((parseContent_eq_ok h).1 f hf).1
    have hbefore : '>' ∉ record.fileText ++ ':' :: record.lineText := by simp [hfree,hdigits]
    rw [hbody,parseContent_open l hbefore,parseFileLine_position,trimChars_trimEnd,
      trimChars_cons_of_pos (by decide)] at h
    by_cases hempty : trimChars record.fileText = []
    · rw [if_pos hempty] at h
      cases h
    rw [if_neg hempty] at h
    obtain ⟨hfile,hline,hcontent⟩ := by simpa using ok.inj h
    have hname : record.fileText = trimChars record.fileText := by
      conv_lhs => rw [fileText,← hfile]
      rfl
    refine ⟨hcontent,_,hfile.symm,by rw [← hline]; rfl,hempty,?_,?_⟩
    · rw [← hname,← hname]
    · rw [← hname]
      exact hfree
  · rintro ⟨hcontent,file,hfile,hline,hne,htrim,hfree⟩
    have hname : record.fileText = file := by rw [fileText,hfile]; rfl
    have hbefore : '>' ∉ record.fileText ++ ':' :: record.lineText := by simp [hname,hfree,hdigits]
    obtain ⟨n,hn⟩ := Option.isSome_iff_exists.mp hline
    rw [hbody,parseContent_open l hbefore,parseFileLine_position,trimChars_trimEnd,
      trimChars_cons_of_pos (by decide),hname,htrim,if_neg hne,hcontent,hfile,hn]
    rfl

theorem parseContent_no_position (l : List Char) (hpos : record.hasFilePos = false) :
    (trimChars (body record) ≠ [] ∧
      parseContent l (trimChars (body record)) = .ok (record.file,record.line,record.content)) ↔
      trimChars record.content = record.content ∧ record.content ≠ [] ∧ record.content.head? ≠ some '<' := by
  have hnone : record.file = none ∧ record.line = none := by simpa [hasFilePos] using hpos
  have hbody : body record = record.content := by simp [body,hpos]
  rw [hbody,parseContent,hnone.1,hnone.2]
  constructor
  · rintro ⟨hne,h⟩
    split_ifs at h with hopen
    · split at h
      · cases h
      · split at h
        · cases h
        · simp at h
    · rw [rdropWhile_trimChars] at h
      have hcontent : trimChars record.content = record.content := by simpa using h
      rw [hcontent] at hne hopen
      exact ⟨hcontent,hne,hopen⟩
  · rintro ⟨hcontent,hne,hopen⟩
    refine ⟨by rwa [hcontent],?_⟩
    rw [if_neg (by rwa [hcontent]),rdropWhile_trimChars,hcontent]

theorem plain_iff_parseRecord (htime : helper.Representable record.time)
    (htarget : ' ' ∉ record.target ∧ '\n' ∉ record.target) (hfile : ∀ f ∈ record.file, '\n' ∉ f)
    (hcontent : '\n' ∉ record.content) :
    parseRecord helper (trimEnd (lineOf helper record ++ ['\n'])) = .ok record ↔ Plain record := by
  rw [parseRecord_lineOf helper htime htarget.1]
  cases hpos : record.hasFilePos with
  | false =>
    rw [parseContent_no_position _ hpos]
    have hnone : record.file = none ∧ record.line = none := by simpa [hasFilePos] using hpos
    constructor
    · rintro ⟨hbrackets,htrim,hne,hopen⟩
      exact ⟨⟨htarget.1,htarget.2,hbrackets⟩,⟨hcontent,htrim⟩,.inl ⟨hnone.1,hnone.2,hne,hopen⟩⟩
    · rintro ⟨⟨-,-,hbrackets⟩,⟨-,htrim⟩,⟨-,-,hne,hopen⟩ | ⟨file,hfile,-⟩⟩
      · exact ⟨hbrackets,htrim,hne,hopen⟩
      · rw [hnone.1] at hfile
        cases hfile
  | true =>
    have hbody : trimChars (body record) ≠ [] := by
      rw [body,if_pos hpos,trimChars_cons_of_neg (by decide)]
      simp
    rw [parseContent_position _ hpos]
    constructor
    · rintro ⟨hbrackets,-,htrim,file,hname,hline,hne,hends,hfree⟩
      exact ⟨⟨htarget.1,htarget.2,hbrackets⟩,⟨hcontent,htrim⟩,
        .inr ⟨file,hname,hline,hne,hends,hfree,hfile file hname⟩⟩
    · rintro ⟨⟨-,-,hbrackets⟩,⟨-,htrim⟩,⟨hnone,hline,-⟩ | ⟨file,hname,hline,hne,hends,hfree,-⟩⟩
      · rw [hasFilePos,hnone,hline] at hpos
        cases hpos
      · exact ⟨hbrackets,hbody,htrim,file,hname,hline,hne,hends,hfree⟩

/-- Exactly the plain records survive the text format. -/
theorem record_survives_iff (htime : helper.Representable record.time) :
    readRecords helper (formatRecord helper record) = [record] ↔ Plain record := by
  have hread : '\n' ∉ lineOf helper record → readRecords helper (formatRecord helper record) =
      (parseRecord helper (trimEnd (lineOf helper record ++ ['\n']))).toOption.toList := by
    intro hfree
    show (linesFrom [] (lineOf helper record ++ ['\n'])).filterMap _ = _
    rw [linesFrom_append_newline hfree,nil_append,filterMap_cons,filterMap_nil]
    cases parseRecord helper (trimEnd (lineOf helper record ++ ['\n'])) <;> rfl
  constructor
  · intro h
    obtain ⟨line,hline,hparse⟩ := mem_filterMap.mp
      (show record ∈ readRecords helper (formatRecord helper record) by simp [h])
    have hok : parseRecord helper (trimEnd (line ++ ['\n'])) = .ok record := by
      cases hp : parseRecord helper (trimEnd (line ++ ['\n'])) with
      | error e => rw [hp] at hparse; cases hparse
      | ok r => rw [hp] at hparse; rw [← Option.some.inj hparse]
    have hends : '\n' ∉ trimEnd (line ++ ['\n']) := by
      rw [trimEnd,rdropWhile_concat_pos _ _ _ (by decide)]
      exact fun hmem => newline_not_mem_linesFrom not_mem_nil hline
        (( rdropWhile_prefix _ _).sublist.mem hmem)
    obtain ⟨htarget,hfile,hcontent⟩ := parseRecord_plain hok hends
    rw [hread (newline_not_mem_lineOf helper htarget.2 hfile hcontent)] at h
    rw [← plain_iff_parseRecord helper htime htarget hfile hcontent]
    cases hp : parseRecord helper (trimEnd (lineOf helper record ++ ['\n'])) with
    | error e => rw [hp] at h; cases h
    | ok r =>
      rw [hp] at h
      rw [(cons.inj h).1]
  · intro h
    have hfile : ∀ f ∈ record.file, '\n' ∉ f := by
      intro f hf
      rcases h.position with ⟨hnone,-⟩ | ⟨file,hname,-,-,-,-,hfree⟩
      · rw [hnone] at hf
        cases hf
      · rw [hname] at hf
        exact Option.some.inj hf ▸ hfree
    rw [hread (newline_not_mem_lineOf helper h.target.2.1 hfile h.content.1),
      (plain_iff_parseRecord helper htime ⟨h.target.1,h.target.2.1⟩ hfile h.content.1).mpr h]
    rfl

def firstDayText (time : ℕ) : List Char :=
  ['1','9','7','0','-','0','1','-','0','1','_'] ++ padded 10 2 (time / 3600000 % 24) ++ [':'] ++
    padded 10 2 (time / 60000 % 60) ++ [':'] ++ padded 10 2 (time / 1000 % 60) ++ ['.'] ++
    padded 10 3 (time % 1000) ++ ['_','+','0','0',':','0','0']

def firstDayTime (text : List Char) : ℕ :=
  let digits (start width : ℕ) := Nat.ofDigitChars 10 ((text.drop start).take width) 0
  ((digits 11 2 * 60 + digits 14 2) * 60 + digits 17 2) * 1000 + digits 20 3

theorem firstDayTime_text {time : ℕ} (h : time < 86400000) : firstDayTime (firstDayText time) = time := by
  have htwo : ∀ n < 100, ∃ a b, padded 10 2 n = [a,b] := fun n hn =>
    length_eq_two.mp (length_padded (by decide) (show n < 10 ^ (1 + 1) from hn))
  have hthree : ∀ n < 1000, ∃ a b c, padded 10 3 n = [a,b,c] := fun n hn =>
    length_eq_three.mp (length_padded (by decide) (show n < 10 ^ (2 + 1) from hn))
  obtain ⟨h₁,h₂,hhours⟩ := htwo (time / 3600000 % 24) (by omega)
  obtain ⟨m₁,m₂,hminutes⟩ := htwo (time / 60000 % 60) (by omega)
  obtain ⟨s₁,s₂,hseconds⟩ := htwo (time / 1000 % 60) (by omega)
  obtain ⟨f₁,f₂,f₃,hmillis⟩ := hthree (time % 1000) (by omega)
  have hread : firstDayTime (firstDayText time) =
      ((Nat.ofDigitChars 10 [h₁,h₂] 0 * 60 + Nat.ofDigitChars 10 [m₁,m₂] 0) * 60 +
        Nat.ofDigitChars 10 [s₁,s₂] 0) * 1000 + Nat.ofDigitChars 10 [f₁,f₂,f₃] 0 := by
    rw [firstDayText,hhours,hminutes,hseconds,hmillis]
    rfl
  rw [hread,← hhours,← hminutes,← hseconds,← hmillis]
  simp only [ofDigitChars_padded]
  omega

theorem mem_firstDayText {time : ℕ} {c : Char} (h : c ∈ firstDayText time) :
    c.isDigit = true ∨ c ∈ ['-','_',':','.','+'] := by
  have hfixed : ∀ text : List Char, text.all (fun c => c.isDigit || c ∈ ['-','_',':','.','+']) = true →
      c ∈ text → c.isDigit = true ∨ c ∈ ['-','_',':','.','+'] := by
    intro text htext hc
    simpa using all_eq_true.mp htext c hc
  simp only [firstDayText,mem_append] at h
  rcases h with (((((((h | h) | h) | h) | h) | h) | h) | h) | h
  · exact hfixed _ (by decide) h
  · exact .inl (isDigit_of_mem_padded h)
  · exact .inr (by simp [mem_singleton.mp h])
  · exact .inl (isDigit_of_mem_padded h)
  · exact .inr (by simp [mem_singleton.mp h])
  · exact .inl (isDigit_of_mem_padded h)
  · exact .inr (by simp [mem_singleton.mp h])
  · exact .inl (isDigit_of_mem_padded h)
  · exact hfixed _ (by decide) h

/-- A date library that knows the first day, in UTC. -/
def firstDayHelper : LogTimeHelper where
  timeToLocalString := firstDayText
  localStringToTime text := .ok (firstDayTime text)
  Representable time := time < 86400000
  plain time := ⟨fun h => absurd (mem_firstDayText h) (by decide),
    fun h => absurd (mem_firstDayText h) (by decide)⟩
  read time h := by rw [firstDayTime_text h]

/-- A record with a position and some blanks in its content. -/
theorem record_survives_with_position :
    let record : SystemLogRecord :=
      ⟨.warn,"win_target".toList,7,some "C:\\main.rs".toList,some 128,"a [b] <c>".toList⟩
    readRecords firstDayHelper (formatRecord firstDayHelper record) = [record] := by
  intro record
  have htime : firstDayHelper.Representable record.time := (by decide : 7 < 86400000)
  refine (record_survives_iff firstDayHelper htime).mpr ⟨by decide,by decide,.inr ?_⟩
  exact ⟨_,rfl,rfl,by decide,by decide,by decide,by decide⟩

/-- A line break in the content cuts it off, a blank in the target moves the rest into the content, and
without a position an empty content loses the record. -/
theorem record_changed_by_format :
    readRecords firstDayHelper (formatRecord firstDayHelper ⟨.info,['t'],7,none,none,"a\nb".toList⟩) =
      [⟨.info,['t'],7,none,none,['a']⟩] ∧
    readRecords firstDayHelper (formatRecord firstDayHelper ⟨.info,"t u".toList,7,none,none,['a']⟩) =
      [⟨.info,['t'],7,none,none,"u] a".toList⟩] ∧
    readRecords firstDayHelper (formatRecord firstDayHelper ⟨.info,['t'],7,none,none,[]⟩) = [] := by
  refine ⟨?_,?_,?_⟩ <;> decide +kernel

end RoundTrip
end Slog
end BuckyOS
