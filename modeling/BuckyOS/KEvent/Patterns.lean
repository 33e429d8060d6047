import Mathlib.Tactic

/-! Patterns of event ids: the matcher against the meaning of a pattern, containment of one pattern in
another, and the removal of redundant patterns from a list. -/
namespace BuckyOS.KEvent
open List

section Code
def isGlobalEventid (eventid : String) : Bool := eventid.toList.head? = some '/'

def isGlobalPattern (pattern : String) : Bool := pattern.toList.head? = some '/'

def segments (path : String) : List String :=
  ((path.toList.splitOn '/').map String.ofList).tail

def matchGlobalSegments : List String → List String → Bool
  | [], event => event.isEmpty
  | segment :: pattern, [] =>
    if segment = "**" then matchGlobalSegments pattern [] else false
  | segment :: pattern, first :: rest =>
    if segment = "**" then
      matchGlobalSegments pattern (first :: rest) || matchGlobalSegments (segment :: pattern) rest
    else if segment = "*" then matchGlobalSegments pattern rest
    else segment = first && matchGlobalSegments pattern rest
termination_by pattern event => pattern.length + event.length

def matchGlobalPattern (pattern eventid : String) : Bool :=
  isGlobalPattern pattern && isGlobalEventid eventid &&
    matchGlobalSegments (segments pattern) (segments eventid)

def matchEventPatterns (patterns : List String) (eventid : String) : Bool :=
  patterns.any (fun pattern =>
    if isGlobalPattern pattern then isGlobalEventid eventid && matchGlobalPattern pattern eventid
    else pattern = eventid)

def patternSubsumesSegments : List String → List String → Bool
  | [], [] => true
  | [], _ :: _ => false
  | broad, [] => broad.all (fun segment => segment = "**")
  | b :: broad, n :: narrow =>
    if b = "**" then
      if n = "**" then patternSubsumesSegments (b :: broad) narrow
      else
        patternSubsumesSegments broad (n :: narrow) || patternSubsumesSegments (b :: broad) narrow
    else if n = "**" then false
    else if b = "*" then patternSubsumesSegments broad narrow
    else if n = "*" then false
    else b = n && patternSubsumesSegments broad narrow
termination_by broad narrow => broad.length + narrow.length

/-- Whether one pattern is found to match whatever another one matches. -/
def patternSubsumes (broad narrow : String) : Bool :=
  if broad = narrow then true
  else if isGlobalPattern broad != isGlobalPattern narrow then false
  else if !isGlobalPattern broad then false
  else patternSubsumesSegments (segments broad) (segments narrow)

/-- Add a pattern to those that are kept, unless one of them subsumes it, and drop those that it
subsumes. -/
def keepPattern (out : List String) (pattern : String) : List String :=
  if out.any (fun kept => patternSubsumes kept pattern) then out
  else out.filter (fun kept => !patternSubsumes pattern kept) ++ [pattern]

def normalizePatterns (patterns : List String) : List String := patterns.foldl keepPattern []

end Code

section Meaning
/-- Segment by segment: a star stands for one segment, two stars for any number of them, and any
other segment for itself. -/
inductive Matches : List String → List String → Prop
  | nil : Matches [] []
  | any {pattern event : List String} (skipped : List String) (h : Matches pattern event) :
    Matches ("**" :: pattern) (skipped ++ event)
  | one {pattern event : List String} (segment : String) (h : Matches pattern event) :
    Matches ("*" :: pattern) (segment :: event)
  | literal {pattern event : List String} {segment : String} (hany : segment ≠ "**")
      (hone : segment ≠ "*") (h : Matches pattern event) :
    Matches (segment :: pattern) (segment :: event)

/-- What a pattern says about an event id. A pattern that is not global names one event. -/
def Means (pattern eventid : String) : Prop :=
  if isGlobalPattern pattern then
    isGlobalEventid eventid = true ∧ Matches (segments pattern) (segments eventid)
  else pattern = eventid

variable {pattern event : List String} {segment : String}

theorem matches_nil_iff : Matches [] event ↔ event = [] := by
  constructor
  · intro h
    cases h
    rfl
  · rintro rfl
    exact .nil

theorem Matches.inv (h : Matches (segment :: pattern) event) :
    (segment = "**" ∧ ∃ skipped rest, event = skipped ++ rest ∧ Matches pattern rest) ∨
      (segment ≠ "**" ∧ ∃ first rest, event = first :: rest ∧
        (segment = "*" ∨ segment = first) ∧ Matches pattern rest) := by
  cases h with
  | any skipped h => exact .inl ⟨rfl,skipped,_,rfl,h⟩
  | one first h => exact .inr ⟨by decide,first,_,rfl,.inl rfl,h⟩
  | literal hany _ h => exact .inr ⟨hany,segment,_,rfl,.inr rfl,h⟩

theorem matches_any_iff : Matches ("**" :: pattern) event ↔
      Matches pattern event ∨ ∃ first rest, event = first :: rest ∧ Matches ("**" :: pattern) rest := by
  constructor
  · intro h
    obtain ⟨-,skipped,rest,rfl,hrest⟩ := h.inv.resolve_right (fun h => h.1 rfl)
    cases skipped with
    | nil => exact .inl hrest
    | cons first skipped => exact .inr ⟨first,_,rfl,.any skipped hrest⟩
  · rintro (h | ⟨first,rest,rfl,h⟩)
    · exact .any [] h
    · obtain ⟨-,skipped,rest,rfl,hrest⟩ := h.inv.resolve_right (fun h => h.1 rfl)
      exact .any (first :: skipped) hrest

theorem Matches.skip (h : Matches ("**" :: pattern) event) (skipped : List String) :
    Matches ("**" :: pattern) (skipped ++ event) := by
  induction skipped with
  | nil => exact h
  | cons first skipped ih => exact matches_any_iff.mpr (.inr ⟨first,_,rfl,ih⟩)

theorem matches_cons_iff (hany : segment ≠ "**") : Matches (segment :: pattern) event ↔
      ∃ first rest, event = first :: rest ∧ (segment = "*" ∨ segment = first) ∧
        Matches pattern rest := by
  constructor
  · intro h
    exact (h.inv.resolve_left (fun h => hany h.1)).2
  · rintro ⟨first,rest,rfl,hsegment,h⟩
    by_cases hone : segment = "*"
    · subst hone
      exact .one first h
    · obtain rfl := hsegment.resolve_left hone
      exact .literal hany hone h

theorem matches_of_all_any (h : ∀ segment ∈ pattern, segment = "**") : Matches pattern [] := by
  induction pattern with
  | nil => exact .nil
  | cons segment pattern ih =>
    obtain rfl := h segment mem_cons_self
    exact .any [] (ih fun s hs => h s (mem_cons_of_mem _ hs))

end Meaning

section Matcher
theorem matchGlobalSegments_iff (pattern event : List String) :
    matchGlobalSegments pattern event = true ↔ Matches pattern event := by
  fun_induction matchGlobalSegments pattern event with
  | case1 event => rw [matches_nil_iff,List.isEmpty_iff]
  | case2 pattern ih =>
    rw [ih,@matches_any_iff pattern []]
    simp
  | case3 segment pattern hany => simp [matches_cons_iff hany]
  | case4 pattern first rest ih ih' =>
    rw [Bool.or_eq_true,ih',ih,@matches_any_iff pattern (first :: rest)]
    simp
  | case5 pattern first rest _ ih => simp [ih,matches_cons_iff]
  | case6 segment pattern first rest hany hone ih => simp [ih,matches_cons_iff hany,hone]

theorem matchEventPatterns_iff (patterns : List String) (eventid : String) :
    matchEventPatterns patterns eventid = true ↔ ∃ pattern ∈ patterns, Means pattern eventid := by
  rw [matchEventPatterns,any_eq_true]
  refine exists_congr fun pattern => and_congr_right fun _ => ?_
  unfold Means matchGlobalPattern
  by_cases hglobal : isGlobalPattern pattern = true
  · by_cases hevent : isGlobalEventid eventid = true
    · simp [hglobal,hevent,matchGlobalSegments_iff]
    · simp [hglobal,hevent]
  · simp [hglobal]

end Matcher

section Subsumption
theorem patternSubsumesSegments_sound (broad narrow event : List String)
    (hsubsumes : patternSubsumesSegments broad narrow = true) (h : Matches narrow event) :
    Matches broad event := by
  fun_induction patternSubsumesSegments broad narrow generalizing event with
  | case1 => exact h
  | case2 => cases hsubsumes
  | case3 broad =>
    rw [matches_nil_iff] at h
    subst h
    exact matches_of_all_any (by simpa using hsubsumes)
  | case4 broad narrow ih =>
    obtain ⟨-,skipped,rest,rfl,hrest⟩ := h.inv.resolve_right (fun h => h.1 rfl)
    exact (ih _ hsubsumes hrest).skip skipped
  | case5 broad n narrow hn ih ih' =>
    rcases Bool.or_eq_true _ _ |>.mp hsubsumes with hrest | hrest
    · exact matches_any_iff.mpr (.inl (ih _ hrest h))
    · obtain ⟨first,rest,rfl,-,htail⟩ := (matches_cons_iff hn).mp h
      exact (ih' _ hrest htail).skip [first]
  | case6 => cases hsubsumes
  | case7 broad n narrow hn _ ih =>
    obtain ⟨first,rest,rfl,-,htail⟩ := (matches_cons_iff hn).mp h
    exact .one first (ih _ hsubsumes htail)
  | case8 => cases hsubsumes
  | case9 b broad n narrow hb hn hone hn' ih =>
    obtain ⟨heq,hrest⟩ := Bool.and_eq_true _ _ |>.mp hsubsumes
    obtain rfl : b = n := by simpa using heq
    obtain ⟨first,rest,rfl,hfirst,htail⟩ := (matches_cons_iff hn).mp h
    exact (matches_cons_iff hb).mpr ⟨first,rest,rfl,hfirst,ih _ hrest htail⟩

theorem patternSubsumes_sound {broad narrow eventid : String}
    (hsubsumes : patternSubsumes broad narrow = true) (h : Means narrow eventid) :
    Means broad eventid := by
  unfold patternSubsumes at hsubsumes
  split_ifs at hsubsumes with heq hdiffer hlocal
  · rw [heq]
    exact h
  · have hbroad : isGlobalPattern broad = true := by simpa using hlocal
    have hnarrow : isGlobalPattern narrow = true := by simpa [hbroad] using hdiffer
    simp only [Means,hbroad,hnarrow,if_true] at h ⊢
    exact ⟨h.1,patternSubsumesSegments_sound _ _ _ hsubsumes h.2⟩

end Subsumption

section Normalization
def Irredundant (patterns : List String) : Prop :=
  patterns.Pairwise (fun p q => patternSubsumes p q = false ∧ patternSubsumes q p = false)

variable {out : List String}

theorem means_keepPattern (out : List String) (pattern eventid : String) :
    (∃ p ∈ keepPattern out pattern, Means p eventid) ↔
      (∃ p ∈ out, Means p eventid) ∨ Means pattern eventid := by
  unfold keepPattern
  split_ifs with hkept
  · obtain ⟨kept,hmem,hsubsumes⟩ := any_eq_true.mp hkept
    constructor
    · exact .inl
    · rintro (h | h)
      · exact h
      · exact ⟨kept,hmem,patternSubsumes_sound hsubsumes h⟩
  · constructor
    · rintro ⟨p,hp,h⟩
      rcases mem_append.mp hp with hp | hp
      · exact .inl ⟨p,mem_of_mem_filter hp,h⟩
      · exact .inr (mem_singleton.mp hp ▸ h)
    · rintro (⟨p,hp,h⟩ | h)
      · by_cases hsubsumes : patternSubsumes pattern p = true
        · exact ⟨pattern,by simp,patternSubsumes_sound hsubsumes h⟩
        · exact ⟨p,by simp [hp,hsubsumes],h⟩
      · exact ⟨pattern,by simp,h⟩

theorem means_foldl_keepPattern (patterns out : List String) (eventid : String) :
    (∃ p ∈ patterns.foldl keepPattern out, Means p eventid) ↔
      (∃ p ∈ out, Means p eventid) ∨ ∃ p ∈ patterns, Means p eventid := by
  induction patterns generalizing out with
  | nil => simp
  | cons pattern patterns ih =>
    rw [foldl_cons,ih,means_keepPattern]
    simp [or_assoc]

theorem Irredundant.keepPattern (h : Irredundant out) (pattern : String) :
    Irredundant (keepPattern out pattern) := by
  unfold KEvent.keepPattern
  split_ifs with hkept
  · exact h
  · refine pairwise_append.mpr ⟨h.filter _,pairwise_singleton _ _,?_⟩
    intro p hp q hq
    obtain rfl := mem_singleton.mp hq
    obtain ⟨hmem,hnot⟩ := mem_filter.mp hp
    have hfree : ∀ kept ∈ out, patternSubsumes kept q = false := by simpa using hkept
    exact ⟨hfree p hmem,by simpa using hnot⟩

theorem irredundant_normalizePatterns (patterns : List String) :
    Irredundant (normalizePatterns patterns) := by
  have hfold : ∀ out, Irredundant out → Irredundant (patterns.foldl keepPattern out) := by
    induction patterns with
    | nil => exact fun _ h => h
    | cons pattern patterns ih => exact fun out h => ih _ (h.keepPattern pattern)
  exact hfold [] List.Pairwise.nil

theorem Irredundant.foldl_keepPattern {patterns : List String}
    (h : Irredundant (out ++ patterns)) : patterns.foldl KEvent.keepPattern out = out ++ patterns := by
  induction patterns generalizing out with
  | nil => simp
  | cons pattern patterns ih =>
    have hpairs := (pairwise_append.mp h).2.2
    have hfree : ∀ kept ∈ out, patternSubsumes kept pattern = false ∧
        patternSubsumes pattern kept = false := fun kept hkept => hpairs kept hkept pattern mem_cons_self
    have hstep : KEvent.keepPattern out pattern = out ++ [pattern] := by
      have hnone : out.any (fun kept => patternSubsumes kept pattern) = false := by
        simpa using fun kept hkept => (hfree kept hkept).1
      have hall : out.filter (fun kept => !patternSubsumes pattern kept) = out :=
        filter_eq_self.mpr fun kept hkept => by simp [(hfree kept hkept).2]
      rw [KEvent.keepPattern,hnone,hall]
      simp
    rw [foldl_cons,hstep,ih (by simpa using h)]
    simp

/-- For every pattern and every event id, valid or not, the matcher follows the meaning of the
pattern; a pattern that is found to subsume another one matches whatever the other one matches; and
the patterns that are kept match the same event ids, do not subsume each other, and are all kept when
they are normalized again. -/
theorem patterns_normalized :
    (∀ pattern eventid, matchEventPatterns [pattern] eventid = true ↔ Means pattern eventid) ∧
    (∀ broad narrow eventid, patternSubsumes broad narrow = true →
      matchEventPatterns [narrow] eventid = true → matchEventPatterns [broad] eventid = true) ∧
    ∀ patterns,
      (∀ eventid, matchEventPatterns (normalizePatterns patterns) eventid =
        matchEventPatterns patterns eventid) ∧
      Irredundant (normalizePatterns patterns) ∧
      normalizePatterns (normalizePatterns patterns) = normalizePatterns patterns := by
  have hmeans : ∀ pattern eventid,
      matchEventPatterns [pattern] eventid = true ↔ Means pattern eventid := by
    intro pattern eventid
    simp [matchEventPatterns_iff]
  refine ⟨hmeans,fun broad narrow eventid hsubsumes h => ?_,fun patterns => ⟨fun eventid => ?_,
    irredundant_normalizePatterns patterns,?_⟩⟩
  · rw [hmeans] at h ⊢
    exact patternSubsumes_sound hsubsumes h
  · rw [Bool.eq_iff_iff,matchEventPatterns_iff,matchEventPatterns_iff,normalizePatterns,
      means_foldl_keepPattern]
    simp
  · have hkept := irredundant_normalizePatterns patterns
    exact Irredundant.foldl_keepPattern (by simpa using hkept)

end Normalization
end BuckyOS.KEvent
