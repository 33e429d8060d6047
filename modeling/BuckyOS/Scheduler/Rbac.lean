import BuckyOS.Lib.Lists
import BuckyOS.Scheduler.Types

/-! The access policy that the scheduler derives from users, nodes and specs: one text, written
line by line as the hash maps are walked and compared with the text stored last. -/
namespace BuckyOS.Scheduler
open List

inductive UserType
  | admin | user | limited
  deriving DecidableEq

/-- The scheduler's maps, each in the order in which it is walked. -/
structure PolicyWalk where
  users : Registry (Prod.fst : String × UserType → String)
  nodes : Registry NodeItem.id
  specs : Registry ServiceSpec.id

def pushPolicyLine (policy line : String) : String :=
  if policy = "" then line else policy ++ "\n" ++ line

def grant (subject role : String) : String := "g, " ++ subject ++ ", " ++ role

def sudoAccess (userId path : String) : String :=
  "p, su_" ++ userId ++ ", obj://config/users/" ++ userId ++ path ++ ", read|write,allow"

def userLines : String × UserType → List String
  | ("root",_) => []
  | (userId,.admin) => [grant userId "admin",grant ("su_" ++ userId) "su_admin"]
  | (userId,.user) => [grant userId "users",grant ("su_" ++ userId) "su_users",
      sudoAccess userId "/settings",sudoAccess userId "/doc"]
  | (userId,.limited) => [grant userId "limited"]

def nodeLines (node : NodeItem) : List String :=
  match node.nodeType with
  | .ood => [grant node.id "ood"]
  | .server => [grant node.id "node"]
  | _ => []

def specLine (spec : ServiceSpec) : String :=
  grant spec.appId <| match spec.specType with
    | .app => "app"
    | .agent => "agent"
    | .service => "system"
    | .kernel => "kernel"

def policyLines (w : PolicyWalk) : List String :=
  w.users.items.flatMap userLines ++ w.nodes.items.flatMap nodeLines ++ w.specs.items.map specLine

def rbacPolicy (w : PolicyWalk) : String := (policyLines w).foldl pushPolicyLine ""

/-- The text to store under `system/rbac/policy`, if one is to be stored. -/
def updateRbac (current : Option String) (w : PolicyWalk) : Option String :=
  if current = some (rbacPolicy w) then none else some (rbacPolicy w)

/-- The subject of a line can be read off it, as the last letter tells the roles apart. -/
theorem grant_inj {roles : List String} {subject subject' role role' : String}
    (h : grant subject role = grant subject' role') (hrole : role ∈ roles) (hrole' : role' ∈ roles)
    (hroles : ∀ r ∈ roles, ∀ r' ∈ roles, r.toList.getLast? = r'.toList.getLast? → r = r' ∧ r ≠ "") :
    subject = subject' := by
  have hne : role.toList ≠ [] := by simpa using (hroles role hrole role hrole rfl).2
  have hne' : role'.toList ≠ [] := by simpa using (hroles role' hrole' role' hrole' rfl).2
  have hend := congrArg (fun text => text.toList.getLast?) h
  simp only [grant,String.toList_append,getLast?_append_of_ne_nil _ hne,
    getLast?_append_of_ne_nil _ hne'] at hend
  obtain ⟨rfl,-⟩ := hroles role hrole role' hrole' hend
  simpa [grant] using h

theorem userLines_root {u : String × UserType} (h : u.1 = "root") : userLines u = [] := by
  obtain ⟨userId,userType⟩ := u
  obtain rfl : userId = "root" := h
  rfl

theorem userLines_of_ne_root {u : String × UserType} (h : u.1 ≠ "root") :
    ∃ role rest, role ∈ ["admin","users","limited"] ∧ userLines u = grant u.1 role :: rest := by
  unfold userLines
  split
  · exact absurd rfl h
  · exact ⟨"admin",_,by simp,rfl⟩
  · exact ⟨"users",_,by simp,rfl⟩
  · exact ⟨"limited",_,by simp,rfl⟩

theorem nodeLines_of_ne_nil {node : NodeItem} (h : nodeLines node ≠ []) :
    ∃ role, role ∈ ["ood","node"] ∧ nodeLines node = [grant node.id role] := by
  unfold nodeLines at h ⊢
  split at h
  · exact ⟨"ood",by simp,rfl⟩
  · exact ⟨"node",by simp,rfl⟩
  · exact absurd rfl h

theorem policyLine_ne_empty {w : PolicyWalk} : ∀ line ∈ policyLines w, line ≠ "" := by
  have hgrant : ∀ subject role, grant subject role ≠ "" := by simp [grant]
  have haccess : ∀ userId path, sudoAccess userId path ≠ "" := by simp [sudoAccess]
  have huser : ∀ user, ∀ line ∈ userLines user, line ≠ "" := by
    intro user
    unfold userLines
    split <;> simp [hgrant,haccess]
  have hnode : ∀ node, ∀ line ∈ nodeLines node, line ≠ "" := by
    intro node
    unfold nodeLines
    split <;> simp [hgrant]
  simp only [policyLines,mem_append,mem_flatMap,mem_map]
  rintro line ((⟨user,-,hline⟩ | ⟨node,-,hline⟩) | ⟨spec,-,rfl⟩)
  · exact huser user line hline
  · exact hnode node line hline
  · exact hgrant _ _

section Text
variable {lines lines' : List String}

theorem foldl_pushPolicyLine_eq_empty (h : ∀ line ∈ lines, line ≠ "") :
    lines.foldl pushPolicyLine "" = "" ↔ lines = [] := by
  induction lines using reverseRecOn with
  | nil => simp
  | append_singleton lines line ih =>
    have hline : line ≠ "" := h line (by simp)
    simp only [foldl_concat,pushPolicyLine]
    split_ifs with hempty <;> simp [hline]

theorem foldl_pushPolicyLine_inj (h : ∀ line ∈ lines, line ≠ "" ∧ '\n' ∉ line.toList)
    (h' : ∀ line ∈ lines', line ≠ "" ∧ '\n' ∉ line.toList)
    (heq : lines.foldl pushPolicyLine "" = lines'.foldl pushPolicyLine "") : lines = lines' := by
  have hnil := foldl_pushPolicyLine_eq_empty fun line hline => (h line hline).1
  have hnil' := foldl_pushPolicyLine_eq_empty fun line hline => (h' line hline).1
  induction lines using reverseRecOn generalizing lines' with
  | nil => exact (hnil'.mp heq.symm).symm
  | append_singleton lines line ih =>
    induction lines' using reverseRecOn with
    | nil => exact hnil.mp heq
    | append_singleton lines' line' _ =>
      rw [forall_mem_append,forall_mem_singleton] at h h'
      have hinit := foldl_pushPolicyLine_eq_empty fun line hline => (h.1 line hline).1
      have hinit' := foldl_pushPolicyLine_eq_empty fun line hline => (h'.1 line hline).1
      simp only [foldl_concat,pushPolicyLine] at heq
      split_ifs at heq with hempty hempty' hempty'
      · rw [hinit.mp hempty,hinit'.mp hempty',heq]
      · exact absurd (by simp [heq]) h.2.2
      · exact absurd (by simp [← heq]) h'.2.2
      · have hchars := congrArg String.toList heq
        simp only [String.toList_append,append_assoc] at hchars
        obtain ⟨hfirst,hlast⟩ := append_cons_inj h.2.2 h'.2.2 hchars
        rw [ih h.1 h'.1 (String.toList_inj.mp hfirst) hinit hinit',String.toList_inj.mp hlast]

def lineText (lines : List String) : List Char := lines.flatMap (fun line => line.toList ++ ['\n'])

theorem lineText_eq (h : ∀ line ∈ lines, line ≠ "") (hne : lines ≠ []) :
    lineText lines = (lines.foldl pushPolicyLine "").toList ++ ['\n'] := by
  induction lines using reverseRecOn with
  | nil => exact absurd rfl hne
  | append_singleton lines line ih =>
    have hinit : ∀ line ∈ lines, line ≠ "" := fun line hline => h line (by simp [hline])
    have hempty := foldl_pushPolicyLine_eq_empty hinit
    rw [lineText,flatMap_append,foldl_concat,pushPolicyLine]
    split_ifs with hfirst
    · simp [hempty.mp hfirst]
    · rw [show lines.flatMap _ = _ from ih hinit fun hnil => hfirst (hempty.mpr hnil)]
      simp

theorem policyText_eq_iff (h : ∀ line ∈ lines, line ≠ "") (h' : ∀ line ∈ lines', line ≠ "") :
    lines.foldl pushPolicyLine "" = lines'.foldl pushPolicyLine "" ↔ lineText lines = lineText lines' := by
  by_cases hnil : lines = [] <;> by_cases hnil' : lines' = []
  · simp [hnil,hnil']
  · rw [lineText_eq h' hnil',hnil,foldl_nil,eq_comm,foldl_pushPolicyLine_eq_empty h']
    simp [hnil',lineText]
  · rw [lineText_eq h hnil,hnil',foldl_nil,foldl_pushPolicyLine_eq_empty h]
    simp [hnil,lineText]
  · rw [lineText_eq h hnil,lineText_eq h' hnil',append_left_inj,String.toList_inj]

end Text

namespace PolicyWalk
variable {w w' : PolicyWalk}

/-- The same maps in another order. -/
structure Reordered (w w' : PolicyWalk) : Prop where
  users : w.users.items.Perm w'.users.items
  nodes : w.nodes.items.Perm w'.nodes.items
  specs : w.specs.items.Perm w'.specs.items

/-- In whatever order the maps are walked, a policy is left alone by the update after the one that has
stored it. -/
def Stable (w : PolicyWalk) : Prop := ∀ first next current, w.Reordered first → w.Reordered next →
  updateRbac ((updateRbac current first).or current) next = none

/-- Any two entries of a map can change places in the text. -/
structure Commutes (w : PolicyWalk) : Prop where
  users : ∀ u ∈ w.users.items, ∀ v ∈ w.users.items,
    lineText (userLines u) ++ lineText (userLines v) = lineText (userLines v) ++ lineText (userLines u)
  nodes : ∀ m ∈ w.nodes.items, ∀ n ∈ w.nodes.items,
    lineText (nodeLines m) ++ lineText (nodeLines n) = lineText (nodeLines n) ++ lineText (nodeLines m)
  specs : ∀ s ∈ w.specs.items, ∀ t ∈ w.specs.items,
    lineText [specLine s] ++ lineText [specLine t] = lineText [specLine t] ++ lineText [specLine s]

/-- At most one user and one node stand in the policy, and all specs with the same line. -/
structure Sole (w : PolicyWalk) : Prop where
  users : ∀ u ∈ w.users.items, ∀ v ∈ w.users.items, u.1 ≠ "root" → v.1 ≠ "root" → u = v
  nodes : ∀ m ∈ w.nodes.items, ∀ n ∈ w.nodes.items, nodeLines m ≠ [] → nodeLines n ≠ [] → m = n
  specs : ∀ s ∈ w.specs.items, ∀ t ∈ w.specs.items, specLine s = specLine t

theorem stable_iff_policy :
    w.Stable ↔ ∀ first next, w.Reordered first → w.Reordered next → rbacPolicy first = rbacPolicy next := by
  have hupdate : ∀ first next current, updateRbac ((updateRbac current first).or current) next = none ↔
      rbacPolicy first = rbacPolicy next := by
    intro first next current
    have hstored : (updateRbac current first).or current = some (rbacPolicy first) := by
      unfold updateRbac
      split_ifs with h
      · exact h
      · rfl
    rw [hstored,updateRbac]
    simp
  constructor
  · exact fun h first next hfirst hnext => (hupdate first next none).mp (h first next none hfirst hnext)
  · exact fun h first next current hfirst hnext => (hupdate first next current).mpr (h first next hfirst hnext)

theorem lineText_policyLines : lineText (policyLines w) =
    w.users.items.flatMap (fun u => lineText (userLines u)) ++
      w.nodes.items.flatMap (fun n => lineText (nodeLines n)) ++
      w.specs.items.flatMap (fun s => lineText [specLine s]) := by
  simp [lineText,policyLines,flatMap_assoc,flatMap_map]

theorem rbacPolicy_eq_iff : rbacPolicy w = rbacPolicy w' ↔
    lineText (policyLines w) = lineText (policyLines w') :=
  policyText_eq_iff policyLine_ne_empty policyLine_ne_empty

theorem stable_iff_commutes : w.Stable ↔ w.Commutes := by
  rw [stable_iff_policy]
  constructor
  · intro h
    have htext : ∀ other, w.Reordered other → lineText (policyLines other) = lineText (policyLines w) :=
      fun other hother => rbacPolicy_eq_iff.mp (h other w hother ⟨.refl _,.refl _,.refl _⟩)
    simp only [lineText_policyLines] at htext
    refine ⟨flatMap_perm_iff.mp fun l hl => ?_,flatMap_perm_iff.mp fun l hl => ?_,
      flatMap_perm_iff.mp fun l hl => ?_⟩
    · have hsame := htext ⟨⟨l,(hl.map _).nodup_iff.mp w.users.nodup⟩,w.nodes,w.specs⟩ ⟨hl,.refl _,.refl _⟩
      simpa using hsame
    · have hsame := htext ⟨w.users,⟨l,(hl.map _).nodup_iff.mp w.nodes.nodup⟩,w.specs⟩ ⟨.refl _,hl,.refl _⟩
      simpa using hsame
    · have hsame := htext ⟨w.users,w.nodes,⟨l,(hl.map _).nodup_iff.mp w.specs.nodup⟩⟩ ⟨.refl _,.refl _,hl⟩
      simpa using hsame
  · intro h
    have htext : ∀ other, w.Reordered other → lineText (policyLines other) = lineText (policyLines w) := by
      intro other hother
      rw [lineText_policyLines,lineText_policyLines,flatMap_perm_iff.mpr h.users _ hother.users,
        flatMap_perm_iff.mpr h.nodes _ hother.nodes,flatMap_perm_iff.mpr h.specs _ hother.specs]
    exact fun first next hfirst hnext =>
      rbacPolicy_eq_iff.mpr ((htext first hfirst).trans (htext next hnext).symm)

theorem head_of_commute {lines lines' : List String} {first first' : String} {rest rest' : List String}
    (h : lineText lines ++ lineText lines' = lineText lines' ++ lineText lines)
    (hplain : ∀ line ∈ lines ++ lines', line ≠ "" ∧ '\n' ∉ line.toList)
    (hlines : lines = first :: rest) (hlines' : lines' = first' :: rest') : first = first' := by
  have hplain' : ∀ line ∈ lines' ++ lines, line ≠ "" ∧ '\n' ∉ line.toList :=
    fun line hline => hplain line (by simpa [or_comm] using hline)
  have hsame : lines ++ lines' = lines' ++ lines := by
    refine foldl_pushPolicyLine_inj hplain hplain' ?_
    rw [policyText_eq_iff (fun l hl => (hplain l hl).1) (fun l hl => (hplain' l hl).1)]
    simpa [lineText] using h
  rw [hlines,hlines'] at hsame
  exact (cons.inj hsame).1

end PolicyWalk

/-- A configuration keeps its policy exactly when any two entries of a map can change places in the text;
where no line holds a line break, exactly when at most one user and one node stand in the policy, and
all specs with the same line. -/
theorem rbac_stable_iff (w : PolicyWalk) : (w.Stable ↔ w.Commutes) ∧
    ((∀ line ∈ policyLines w, '\n' ∉ line.toList) → (w.Stable ↔ w.Sole)) := by
  refine ⟨PolicyWalk.stable_iff_commutes,fun hplain => ?_⟩
  have hlines : ∀ line ∈ policyLines w, line ≠ "" ∧ '\n' ∉ line.toList :=
    fun line hline => ⟨policyLine_ne_empty line hline,hplain line hline⟩
  rw [PolicyWalk.stable_iff_commutes]
  constructor
  · intro h
    refine ⟨fun u hu v hv hroot hroot' => ?_,fun m hm n hn hin hin' => ?_,fun s hs t ht => ?_⟩
    · obtain ⟨role,rest,hrole,hu'⟩ := userLines_of_ne_root hroot
      obtain ⟨role',rest',hrole',hv'⟩ := userLines_of_ne_root hroot'
      have hsame := PolicyWalk.head_of_commute (h.users u hu v hv) (fun line hline => hlines line ?_) hu' hv'
      · exact w.users.eq_of_key_eq hu hv (grant_inj hsame hrole hrole' (by decide))
      · rcases mem_append.mp hline with hline | hline
        · exact mem_append_left _ (mem_append_left _ (mem_flatMap.mpr ⟨u,hu,hline⟩))
        · exact mem_append_left _ (mem_append_left _ (mem_flatMap.mpr ⟨v,hv,hline⟩))
    · obtain ⟨role,hrole,hm'⟩ := nodeLines_of_ne_nil hin
      obtain ⟨role',hrole',hn'⟩ := nodeLines_of_ne_nil hin'
      have hsame := PolicyWalk.head_of_commute (h.nodes m hm n hn) (fun line hline => hlines line ?_) hm' hn'
      · exact w.nodes.eq_of_key_eq hm hn (grant_inj hsame hrole hrole' (by decide))
      · rcases mem_append.mp hline with hline | hline
        · exact mem_append_left _ (mem_append_right _ (mem_flatMap.mpr ⟨m,hm,hline⟩))
        · exact mem_append_left _ (mem_append_right _ (mem_flatMap.mpr ⟨n,hn,hline⟩))
    · refine PolicyWalk.head_of_commute (h.specs s hs t ht) (fun line hline => hlines line ?_) rfl rfl
      refine mem_append_right _ ?_
      rcases mem_append.mp hline with hline | hline <;> rw [mem_singleton.mp hline]
      · exact mem_map_of_mem hs
      · exact mem_map_of_mem ht
  · intro h
    refine ⟨fun u hu v hv => ?_,fun m hm n hn => ?_,fun s hs t ht => by rw [h.specs s hs t ht]⟩
    · by_cases hroot : u.1 = "root"
      · simp [userLines_root hroot,lineText]
      · by_cases hroot' : v.1 = "root"
        · simp [userLines_root hroot',lineText]
        · rw [h.users u hu v hv hroot hroot']
    · by_cases hin : nodeLines m = []
      · simp [hin,lineText]
      · by_cases hin' : nodeLines n = []
        · simp [hin',lineText]
        · rw [h.nodes m hm n hn hin hin']

def limitedUsers (ids : List String) (h : ids.Nodup) : PolicyWalk :=
  ⟨⟨ids.map fun id => (id,.limited),by simpa [Function.comp_def] using h⟩,.empty,.empty⟩

/-- Two users met in the other order: the policy stored a moment ago is written anew. -/
theorem rbac_rewritten_swapped :
    updateRbac (updateRbac none (limitedUsers ["ann","bob"] (by decide)))
      (limitedUsers ["bob","ann"] (by decide)) = some "g, bob, limited\ng, ann, limited" := by
  decide

end BuckyOS.Scheduler
