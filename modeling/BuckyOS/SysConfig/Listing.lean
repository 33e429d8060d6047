import BuckyOS.SysConfig.Store

/-! Listings of the config store: which names the children of a directory are listed under. -/
namespace BuckyOS.SysConfig
open List

section Trimming
theorem trimStartLoop_of_not_isPrefix {pattern text : List Char} (h : ¬ pattern <+: text)
    (fuel : ℕ) : trimStartLoop pattern fuel text = text := by
  cases fuel with
  | zero => rfl
  | succ fuel =>
    rw [trimStartLoop,if_neg]
    exact fun hboth => h ( isPrefixOf_iff_prefix.mp hboth.2)

theorem trimStartMatches_append {pattern text : List Char} (h : ¬ pattern <+: text) :
    trimStartMatches pattern (pattern ++ text) = text := by
  have hne : pattern ≠ [] := fun hnil => h (hnil ▸ nil_prefix)
  obtain ⟨n,hn⟩ := Nat.exists_eq_succ_of_ne_zero
    (length_pos_iff.mpr (append_ne_nil_of_left_ne_nil hne text)).ne'
  rw [trimStartMatches,hn,trimStartLoop,
    if_pos ⟨hne, isPrefixOf_iff_prefix.mpr (prefix_append _ _)⟩,drop_left,trimStartLoop_of_not_isPrefix h]

theorem trimStartMatches_nil (text : List Char) : trimStartMatches [] text = text := by
  unfold trimStartMatches
  cases text.length with
  | zero => rfl
  | succ n =>
    rw [trimStartLoop,if_neg]
    exact fun h => h.1 rfl

end Trimming

section Children
theorem takeWhile_eq_iff {text name : List Char} : text.takeWhile (· ≠ '/') = name ↔
      '/' ∉ name ∧ (text = name ∨ ∃ rest, text = name ++ '/' :: rest) := by
  have hparts := takeWhile_append_dropWhile (p := (· ≠ '/')) (l := text)
  have hslash : '/' ∉ text.takeWhile (· ≠ '/') := fun h => by simpa using mem_takeWhile_imp h
  constructor
  · rintro rfl
    refine ⟨hslash,?_⟩
    cases hrest : text.dropWhile (· ≠ '/') with
    | nil =>
      rw [hrest,append_nil] at hparts
      exact .inl hparts.symm
    | cons c rest =>
      have hc : c = '/' := by
        have := head?_dropWhile_not (· ≠ '/') text
        rw [hrest] at this
        simpa using this
      rw [hrest,hc] at hparts
      exact .inr ⟨rest,hparts.symm⟩
  · rintro ⟨hname,rfl | ⟨rest,rfl⟩⟩
    · rw [takeWhile_eq_self_iff]
      intro c hc
      simpa using fun heq : c = '/' => hname (heq ▸ hc)
    · rw [takeWhile_append_of_pos]
      · simp
      · intro c hc
        simpa using fun heq : c = '/' => hname (heq ▸ hc)

/-- A name of a child of a directory: some key goes on with it and ends there, or goes on with a
slash. -/
def IsChild (tree : Tree) (directory name : String) : Prop :=
  '/' ∉ name.toList ∧ ∃ key ∈ tree.keys, isInternalKey key = false ∧
    (key = directory ++ name ∨ ∃ rest, key = directory ++ name ++ "/" ++ rest)

/-- A key is listed as it stands: its directory is not repeated in front of the rest, and nothing
but the directory itself ends in a slash. -/
def ListsPlainly (directory key : String) : Prop :=
  ∀ rest, key.toList = directory.toList ++ rest →
    (directory ≠ "" → ¬ directory.toList <+: rest) ∧ rest.getLast? ≠ some '/'

theorem childOf_eq {directory key : String} {rest : List Char}
    (hkey : key.toList = directory.toList ++ rest) (hplain : ListsPlainly directory key) :
    childOf directory key = some (String.ofList (rest.takeWhile (· ≠ '/'))) := by
  obtain ⟨hrepeat,hlast⟩ := hplain rest hkey
  have htrim : trimStartMatches directory.toList key.toList = rest := by
    by_cases hempty : directory = ""
    · subst hempty
      rw [hkey]
      exact trimStartMatches_nil rest
    · rw [hkey,trimStartMatches_append (hrepeat hempty)]
  simp only [childOf,htrim,if_neg hlast]

end Children

section Listings
theorem mem_foldl_addChild {α : Type} (name : α → String) (l : List α) (result : List String)
    (s : String) : s ∈ l.foldl (fun result a => addChild result (name a)) result ↔
      s ∈ result ∨ ∃ a ∈ l, name a = s := by
  induction l generalizing result with
  | nil => simp
  | cons a l ih =>
    rw [foldl_cons,ih,exists_mem_cons_iff]
    have hadd : s ∈ addChild result (name a) ↔ s ∈ result ∨ name a = s := by
      unfold addChild
      split
      next hmem => exact ⟨Or.inl,fun h => h.elim id (fun h => h ▸ hmem)⟩
      next => simp [eq_comm]
    rw [hadd,or_assoc]

theorem nodup_foldl_addChild {α : Type} (name : α → String) (l : List α) {result : List String}
    (h : result.Nodup) : (l.foldl (fun result a => addChild result (name a)) result).Nodup := by
  induction l generalizing result with
  | nil => exact h
  | cons a l ih =>
    refine ih ?_
    dsimp only [addChild]
    split
    next => exact h
    next hmem => exact List.Nodup.append h (nodup_singleton _) (by simpa using hmem)

theorem foldlM_map_some {α β γ : Type} {f : α → Option β} {g : α → β} {step : γ → β → γ}
    {l : List α} (h : ∀ a ∈ l, f a = some (g a)) (c : γ) :
    l.foldlM (fun c a => (f a).map (step c)) c = some (l.foldl (fun c a => step c (g a)) c) := by
  induction l generalizing c with
  | nil => rfl
  | cons a l ih =>
    rw [foldlM_cons,h a (by simp)]
    exact ih (fun b hb => h b (mem_cons_of_mem _ hb)) _

theorem startsWith_iff {text start : String} :
    startsWith text start = true ↔ ∃ rest, text.toList = start.toList ++ rest := by
  rw [startsWith, isPrefixOf_iff_prefix]
  exact ⟨fun ⟨rest,h⟩ => ⟨rest,h.symm⟩,fun ⟨rest,h⟩ => ⟨rest,h.symm⟩⟩

theorem mem_listData {tree : Tree} {directory : String} {entry : String × String} :
    entry ∈ listData tree directory ↔ entry ∈ tree.entries ∧ isInternalKey entry.1 = false ∧
      ∃ rest, entry.1.toList = directory.toList ++ rest := by
  rw [listData,scanPrefix,mem_filter,mem_filter,startsWith_iff]
  simp only [Bool.not_eq_true']
  tauto

/-- A directory lists, each once, exactly the names that the keys below it go on with, if none of
these keys has the directory in front twice or ends in a slash behind it. -/
theorem listDirectChildren_exact (tree : Tree) (start : String)
    (hplain : ∀ key ∈ tree.keys, isInternalKey key = false →
      ListsPlainly (listedPrefix start) key) :
    ∃ result, listDirectChildren tree start = some result ∧ result.Nodup ∧
      ∀ name, name ∈ result ↔ IsChild tree (listedPrefix start) name := by
  have hkeys : ∀ entry ∈ tree.entries, entry.1 ∈ tree.keys := fun entry hentry =>
    mem_map_of_mem hentry
  have hchild : ∀ entry ∈ listData tree (listedPrefix start),
      childOf (listedPrefix start) entry.1 = some (String.ofList
        ((entry.1.toList.drop (listedPrefix start).toList.length).takeWhile (· ≠ '/'))) := by
    intro entry hentry
    obtain ⟨hmem,hexternal,rest,hrest⟩ := mem_listData.mp hentry
    rw [childOf_eq hrest (hplain _ (hkeys entry hmem) hexternal),hrest,drop_left]
  refine ⟨_,foldlM_map_some hchild [],nodup_foldl_addChild _ _ nodup_nil,fun name => ?_⟩
  rw [mem_foldl_addChild]
  constructor
  · rintro (hnil | ⟨entry,hentry,rfl⟩)
    · simp at hnil
    · obtain ⟨hmem,hexternal,rest,hrest⟩ := mem_listData.mp hentry
      rw [hrest,drop_left]
      obtain ⟨hslash,hsplit⟩ := takeWhile_eq_iff.mp (rfl : rest.takeWhile (· ≠ '/') = _)
      refine ⟨by simpa using hslash,entry.1,hkeys entry hmem,hexternal,?_⟩
      rcases hsplit with hsplit | ⟨tail,hsplit⟩
      · left
        apply String.toList_inj.mp
        rw [String.toList_append,String.toList_ofList,← hsplit,hrest]
      · right
        refine ⟨String.ofList tail,String.toList_inj.mp ?_⟩
        simp only [String.toList_append,String.toList_ofList]
        rw [hrest]
        conv_lhs => rw [hsplit]
        simp
  · rintro ⟨hslash,key,hkey,hexternal,hsplit⟩
    obtain ⟨value,hvalue⟩ := (OrderedMap.mem_keys_iff _ _).mp hkey
    have hentry := (OrderedMap.mem_entries_iff _ _ _).mpr hvalue
    right
    rcases hsplit with rfl | ⟨rest,rfl⟩
    · refine ⟨(_,value),mem_listData.mpr ⟨hentry,hexternal,name.toList,by simp⟩,?_⟩
      rw [String.toList_append,drop_left,
        takeWhile_eq_iff.mpr ⟨hslash,.inl rfl⟩,String.ofList_toList]
    · refine ⟨(_,value),mem_listData.mpr
        ⟨hentry,hexternal,name.toList ++ '/' :: rest.toList,by simp⟩,?_⟩
      have hlist : (listedPrefix start ++ name ++ "/" ++ rest).toList =
          (listedPrefix start).toList ++ (name.toList ++ '/' :: rest.toList) := by simp
      rw [hlist,drop_left,takeWhile_eq_iff.mpr ⟨hslash,.inr ⟨rest.toList,rfl⟩⟩,
        String.ofList_toList]

def treeOf (keys : List String) : Tree := .ofList (keys.map (fun key => (key,"")))

theorem listDirectChildren_exact_nodes :
    ∃ result, listDirectChildren (treeOf ["nodes/a/config","nodes/a/state","nodes/b"]) "nodes" =
        some result ∧ result.Nodup ∧
      ∀ name, name ∈ result ↔
        IsChild (treeOf ["nodes/a/config","nodes/a/state","nodes/b"]) "nodes/" name := by
  refine listDirectChildren_exact _ "nodes" ?_
  intro key hkey _ rest hrest
  have hlisted : listedPrefix "nodes" = "nodes/" := by decide
  rw [hlisted] at hrest ⊢
  have hrest' : rest = key.toList.drop 6 := by rw [hrest]; rfl
  have hall : ∀ key ∈ (treeOf ["nodes/a/config","nodes/a/state","nodes/b"]).keys,
      ("nodes/" ≠ "" → ¬ "nodes/".toList <+: key.toList.drop 6) ∧
        (key.toList.drop 6).getLast? ≠ some '/' := by decide +kernel
  rw [hrest']
  exact hall key hkey

/-- The top level is listed without a leading slash, and keys that repeat their directory or end in
a slash are listed under other names or not at all. -/
theorem listings_not_exact :
    listDirectChildren (treeOf ["boot"]) "" = some ["boot"] ∧
      ¬ IsChild (treeOf ["boot"]) "/" "boot" ∧
    listDirectChildren (treeOf ["a/a/b"]) "a" = some ["b"] ∧
    listDirectChildren (treeOf ["a/bc/"]) "a" = some ["c"] ∧
    listDirectChildren (treeOf ["a/ü/"]) "a" = none := by
  refine ⟨by decide +kernel,?_,by decide +kernel,by decide +kernel,by decide +kernel⟩
  rintro ⟨-,key,hkey,-,hsplit⟩
  have hall : ∀ key ∈ (treeOf ["boot"]).keys, key = "boot" := by decide +kernel
  obtain rfl := hall key hkey
  rcases hsplit with hsplit | ⟨rest,hsplit⟩
  · exact absurd hsplit (by decide)
  · have hlist := congrArg String.toList hsplit
    simp at hlist

end Listings
end BuckyOS.SysConfig
