import OpenMigrate.Jmap.FileTarget
import OpenMigrate.Sync.Tagged
import OpenMigrate.Tree.Covered
import Mathlib.Data.List.TakeWhile

namespace OpenMigrate.Jmap

open Async
open OpenMigrate.Tree (Parents Leads Extends splitOn_slashless)
open Dav (RawFileItem normalizeRelativePath)

section Segments

variable {P : List String} {s t : List Char}

/-- A name that can stand between two slashes. -/
def IsSegment (name : String) : Prop := name ≠ "" ∧ '/' ∉ name.toList

theorem segmentsOf_isSegment (path : String) : ∀ name ∈ segmentsOf path, IsSegment name := by
  intro name hname
  obtain ⟨chars, hchars, rfl⟩ := List.mem_map.mp hname
  obtain ⟨hsplit, hne⟩ := List.mem_filter.mp hchars
  constructor
  · intro hempty
    apply of_decide_eq_true hne
    rw [← String.toList_ofList (l := chars), hempty]
    rfl
  · rw [String.toList_ofList]
    exact splitOn_slashless hsplit

theorem segmentsOf_empty : segmentsOf "" = [] := by decide

theorem segmentsOf_append (s t : List Char) :
    segmentsOf (String.ofList (s ++ '/' :: t)) = segmentsOf (String.ofList s) ++ segmentsOf (String.ofList t) := by
  simp only [segmentsOf, String.toList_ofList, List.splitOn_append_cons_self, List.filter_append, List.map_append]

theorem segmentsOf_segment {name : String} (h : IsSegment name) : segmentsOf name = [name] := by
  have hne : name.toList ≠ [] := fun hnil => h.1 (String.toList_eq_nil_iff.mp hnil)
  simp [segmentsOf, List.splitOn_eq_singleton h.2, hne]

theorem segmentsOf_below (above : String) {name : String} (h : IsSegment name) :
    segmentsOf (if above = "" then name else above ++ "/" ++ name) = segmentsOf above ++ [name] := by
  by_cases habove : above = ""
  · rw [if_pos habove, habove, segmentsOf_empty, segmentsOf_segment h, List.nil_append]
  · have hjoin : above ++ "/" ++ name = String.ofList (above.toList ++ '/' :: name.toList) := by
      apply String.toList_injective
      simp
    rw [if_neg habove, hjoin, segmentsOf_append, String.ofList_toList, String.ofList_toList, segmentsOf_segment h]

theorem segmentsOf_intercalate (h : ∀ name ∈ P, IsSegment name) : segmentsOf ("/".intercalate P) = P := by
  induction P with
  | nil => exact segmentsOf_empty
  | cons name P ih =>
    have hname := segmentsOf_segment (h name List.mem_cons_self)
    have hrest := ih fun n hn => h n (List.mem_cons_of_mem name hn)
    cases P with
    | nil => rw [String.intercalate_singleton, hname]
    | cons next P =>
      have hjoin : "/".intercalate (name :: next :: P) =
          String.ofList (name.toList ++ '/' :: ("/".intercalate (next :: P)).toList) := by
        apply String.toList_injective
        simp [String.intercalate_cons_cons]
      rw [hjoin, segmentsOf_append, String.ofList_toList, String.ofList_toList, hname, hrest, List.singleton_append]

theorem last_slash (l : List Char) : (l.reverse.dropWhile (· ≠ '/') = [] ∧ '/' ∉ l) ∨
    ∃ a b, l = a ++ '/' :: b ∧ '/' ∉ b ∧ (l.reverse.dropWhile (· ≠ '/')).tail.reverse = a := by
  have hsplit := List.takeWhile_append_dropWhile (p := (· ≠ '/')) (l := l.reverse)
  have htake : ∀ c ∈ l.reverse.takeWhile (· ≠ '/'), c ≠ '/' := by
    intro c hc
    have hkept := List.mem_takeWhile_imp (p := fun x : Char => decide (x ≠ '/')) hc
    exact of_decide_eq_true hkept
  cases hdrop : l.reverse.dropWhile (· ≠ '/') with
  | nil =>
    left
    refine ⟨rfl, fun hmem => ?_⟩
    rw [hdrop, List.append_nil] at hsplit
    rw [← List.mem_reverse, ← hsplit] at hmem
    exact htake _ hmem rfl
  | cons c d =>
    right
    have hc : c = '/' := by
      have hne : l.reverse.dropWhile (fun c => decide (c ≠ '/')) ≠ [] := by
        rw [hdrop]
        exact List.cons_ne_nil c d
      have hhead := List.head_dropWhile_not (fun c : Char => decide (c ≠ '/')) hne
      simp only [hdrop, List.head_cons] at hhead
      simpa using hhead
    refine ⟨d.reverse, (l.reverse.takeWhile (· ≠ '/')).reverse, ?_, ?_, rfl⟩
    · rw [hdrop] at hsplit
      have hrev := congrArg List.reverse hsplit
      rw [List.reverse_append, List.reverse_reverse, List.reverse_cons, hc, List.append_assoc] at hrev
      exact hrev.symm
    · intro hmem
      exact htake _ (List.mem_reverse.mp hmem) rfl

theorem segmentsOf_parent {path : String} (hne : path ≠ "") (hlast : path.toList.getLast? ≠ some '/') :
    segmentsOf (parentPathOf path) ++ [lastSegment path] = segmentsOf path := by
  have hlastOf : ∀ P name, segmentsOf path = P ++ [name] → lastSegment path = name := by
    intro P name h
    rw [lastSegment, h, List.getLast?_concat]
    rfl
  obtain ⟨hdrop, hslash⟩ | ⟨a, b, hab, hb, ha⟩ := last_slash path.toList
  · have hpath : segmentsOf path = [path] := segmentsOf_segment ⟨hne, hslash⟩
    have hparent : parentPathOf path = "" := by
      rw [parentPathOf, hdrop]
      rfl
    rw [hparent, segmentsOf_empty, hlastOf [] path hpath, hpath]
    rfl
  · have hbne : b ≠ [] := by
      rintro rfl
      apply hlast
      rw [hab, List.getLast?_concat]
    have hsegment : IsSegment (String.ofList b) := by
      refine ⟨fun hempty => hbne ?_, by rwa [String.toList_ofList]⟩
      simpa using congrArg String.toList hempty
    have hpath : segmentsOf path = segmentsOf (String.ofList a) ++ [String.ofList b] := by
      rw [← String.ofList_toList (s := path), hab, segmentsOf_append, segmentsOf_segment hsegment]
    rw [parentPathOf, ha, hlastOf _ _ hpath, hpath]

end Segments

namespace FileAccount

variable {stringify : String → String} {S : FileServer} {account : FileAccount}

/-- The names and the parents of all the nodes there ever were. -/
def everParents (account : FileAccount) : Parents String String := fun id =>
  (account.ever.find? fun node => node.id = id).bind fun node => node.name.map fun name => (name, node.parentId)

theorem find_ever {node : FileNode} (h : node ∈ account.ever) :
    (account.ever.find? fun n => n.id = node.id) = some node := by
  cases hfound : account.ever.find? fun n => n.id = node.id with
  | none => exact absurd (List.find?_eq_none.mp hfound node h) (by simp)
  | some n =>
    have hid : n.id = node.id := of_decide_eq_true (List.find?_some (p := fun n : FileNode => n.id = node.id) hfound)
    rw [List.inj_on_of_nodup_map account.distinct (List.mem_of_find?_eq_some hfound) h hid]

theorem everParents_of_mem {node : FileNode} {name : String} (h : node ∈ account.ever) (hname : node.name = some name) :
    account.everParents node.id = some (name, node.parentId) := by
  rw [everParents, find_ever h, Option.bind_some, hname, Option.map_some]

theorem add_extends (wanted : NodeCreate) : Extends (account.add S wanted).everParents account.everParents := by
  intro id e h
  obtain ⟨node, hnode, he⟩ := Option.bind_eq_some_iff.mp h
  rw [everParents, add, List.find?_append, hnode, Option.some_or, Option.bind_some, he]

theorem add_fresh (wanted : NodeCreate) :
    (account.add S wanted).everParents (S.freshId account.ever) = some (wanted.name, wanted.parentId) := by
  have hmem : account.newNode S wanted ∈ (account.add S wanted).ever :=
    List.mem_append_right _ (List.mem_singleton_self _)
  exact everParents_of_mem hmem rfl

theorem edit_everParents (id blobId : String) : (account.edit id blobId).everParents = account.everParents := by
  funext sought
  rw [everParents, everParents, edit, List.find?_map]
  have hids : ((fun node : FileNode => decide (node.id = sought)) ∘ fun node : FileNode =>
      if node.id = id then { node with blobId := some blobId } else node) = fun node => decide (node.id = sought) := by
    funext node
    by_cases hid : node.id = id
    · simp [hid]
    · simp [hid]
  rw [hids]
  cases account.ever.find? fun node => decide (node.id = sought) with
  | none => rfl
  | some node =>
    by_cases hid : node.id = id
    · simp [hid]
    · simp [hid]

theorem create_extends (refusal : Option SetError) (wanted : NodeCreate) :
    Extends (account.create S refusal wanted).2.everParents account.everParents := by
  unfold create
  cases refusal with
  | some e => exact .refl _
  | none =>
    by_cases htaken : account.taken wanted = true
    · rw [if_pos htaken]
      exact .refl _
    · rw [if_neg htaken]
      by_cases hparent : account.has wanted.parentId = true
      · rw [if_pos hparent]
        exact add_extends wanted
      · rw [if_neg hparent]
        exact .refl _

theorem create_created {refusal : Option SetError} {wanted : NodeCreate} {id : String}
    (h : (account.create S refusal wanted).1.created = some id) :
    (account.create S refusal wanted).2.everParents id = some (wanted.name, wanted.parentId) := by
  unfold create at h ⊢
  cases refusal with
  | some e => cases h
  | none =>
    by_cases htaken : account.taken wanted = true
    · simp only [if_pos htaken] at h
      cases h
    · by_cases hparent : account.has wanted.parentId = true
      · simp only [if_neg htaken, if_pos hparent, Option.some.injEq] at h ⊢
        subst h
        exact add_fresh wanted
      · simp only [if_neg htaken, if_neg hparent] at h
        cases h

theorem update_everParents (refusal : Option SetError) (id blobId : String) :
    (account.update refusal id blobId).2.everParents = account.everParents := by
  unfold update
  cases refusal.or (if (account.find id).isSome then none else some ⟨"notFound", ""⟩) with
  | some e => rfl
  | none => exact edit_everParents id blobId

theorem destroy_everParents (refusal : Option SetError) (id : String) :
    (account.destroy refusal id).2.everParents = account.everParents := by
  unfold destroy
  cases refusal.or (if (account.find id).isSome then none else some ⟨"notFound", ""⟩) with
  | some e => rfl
  | none => rfl

theorem delivered_extends {α : Type} {i : FileTurn} {answer : α × FileAccount}
    (h : Extends answer.2.everParents account.everParents) :
    Extends (delivered i account answer).2.everParents account.everParents := by
  unfold delivered
  cases i.fault with
  | none => exact h
  | some reason =>
    by_cases hlost : i.lost = true
    · simpa only [if_pos hlost] using h
    · simpa only [if_neg hlost] using Extends.refl _

theorem exec_extends (c : FileCommand) (i : FileTurn) (account : FileAccount) (memory : FileMemory) :
    Extends (fileExec S stringify c i (account, memory)).2.1.everParents account.everParents := by
  cases c with
  | tree =>
    simp only [fileExec]
    cases memory.treeSnapshot with
    | some cached => exact .refl _
    | none => exact .refl _
  | readTree | invalidate | remember => exact .refl _
  | create wanted => exact delivered_extends (create_extends _ _)
  | update id blobId =>
    apply delivered_extends
    rw [update_everParents]
    exact .refl _
  | destroy id =>
    apply delivered_extends
    rw [destroy_everParents]
    exact .refl _
  | get | upload => exact delivered_extends (.refl _)

theorem madeBy_parents (stringify : String → String) (memory : FileMemory) {c : FileCommand} {i : FileTurn} {id : String}
    (h : madeBy S c i account = some id) : ∃ wanted, c = .create wanted ∧ wanted.blobId.isSome ∧
      (fileExec S stringify c i (account, memory)).2.1.everParents id = some (wanted.name, wanted.parentId) := by
  cases c with
  | create wanted =>
    simp only [madeBy, Bool.and_eq_true, Bool.or_eq_true] at h
    by_cases hreached : wanted.blobId.isSome = true ∧ (i.fault.isNone = true ∨ i.lost = true)
    · rw [if_pos hreached] at h
      have hpost : (fileExec S stringify (.create wanted) i (account, memory)).2.1 = (account.create S i.refusal wanted).2 := by
        simp only [fileExec, delivered]
        cases hfault : i.fault with
        | none => rfl
        | some reason =>
          obtain hnone | hlost := hreached.2
          · rw [hfault] at hnone
            cases hnone
          · simp only [if_pos hlost]
      rw [hpost]
      exact ⟨wanted, rfl, hreached.1, create_created h⟩
    · rw [if_neg hreached] at h
      cases h
  | tree | readTree | invalidate | remember | update | destroy | get | upload => cases h

theorem everParents_blank (account : FileAccount) : account.everParents "" = none := by
  cases hfound : account.ever.find? fun node => node.id = "" with
  | none => rw [everParents, hfound, Option.bind_none]
  | some node =>
    have hid : node.id = "" := of_decide_eq_true (List.find?_some (p := fun n : FileNode => n.id = "") hfound)
    exact absurd hid (account.named node (List.mem_of_find?_eq_some hfound))

theorem act_extends (a : FileAct) : Extends (account.act S a).everParents account.everParents := by
  cases a with
  | add wanted => exact create_extends none wanted
  | edit id blobId =>
    rw [act, edit_everParents]
    exact .refl _
  | remove id => exact .refl _

end FileAccount

section Reading

variable {stringify : String → String} {account : FileAccount} {F : Parents String String} {refs : List FileNodeRef}
  {raw : List FileNode} {start tree : TreeSnapshot}

/-- Each directory is filed under the path that leads to it. -/
def Sound (F : Parents String String) (tree : TreeSnapshot) : Prop :=
  ∀ path node, tree.directories.lookup path = some node → Leads F (segmentsOf path) (some node.id)

theorem Sound.mono {more : Parents String String} (hmore : Extends more F) (h : Sound F tree) : Sound more tree :=
  fun path node hnode => (h path node hnode).mono hmore

theorem Sound.insert {path : String} {node : FileNode} (h : Sound F start) (hnode : Leads F (segmentsOf path) (some node.id))
    (htree : tree.directories = start.directories.insert path node) : Sound F tree := by
  intro path' node' hlookup
  rw [htree] at hlookup
  by_cases hpath : path' = path
  · subst hpath
    rw [AList.lookup_insert] at hlookup
    obtain rfl := Option.some.inj hlookup
    exact hnode
  · rw [AList.lookup_insert_ne hpath] at hlookup
    exact h path' node' hlookup

theorem reconstruct_leads {nodesById : String → Option FileNodeRef} {id path : String}
    (hF : Extends F (parentsOf nodesById)) (h : reconstructFileNodePath stringify nodesById id = .ok path) :
    Leads F (segmentsOf path) (some id) := by
  unfold reconstructFileNodePath at h
  cases hclimb : climb stringify nodesById id MAX_DEPTH [] (some id) [] with
  | error reason =>
    rw [hclimb] at h
    cases h
  | ok names =>
    rw [hclimb] at h
    obtain rfl := Except.ok.inj h
    obtain ⟨P, hP, rfl, -, hnames⟩ := climb_leads hclimb
    rw [List.append_nil, segmentsOf_intercalate hnames]
    exact hP.mono hF

theorem keyNodes_sound (hF : Extends F (parentsOf (fileNodeIndex refs))) (hstart : Sound F start)
    (h : keyNodes stringify refs raw start = .ok tree) : Sound F tree := by
  induction raw generalizing start with
  | nil =>
    obtain rfl := Except.ok.inj h
    exact hstart
  | cons node raw ih =>
    rw [keyNodes] at h
    cases hkind : nodeKind stringify node with
    | error reason =>
      rw [hkind] at h
      cases h
    | ok kind =>
      simp only [hkind, Except.bind] at h
      cases hpath : reconstructFileNodePath stringify (fileNodeIndex refs) node.id with
      | error reason =>
        rw [hpath] at h
        cases h
      | ok path =>
        simp only [hpath] at h
        cases kind with
        | directory => exact ih (hstart.insert (reconstruct_leads hF hpath) rfl) h
        | file =>
          have hfile : Sound F { start with files := start.files.insert path node } := hstart
          exact ih hfile h

theorem toRef_ok {node : FileNode} {ref : FileNodeRef} (h : toRef node = .ok ref) :
    node.name = some ref.name ∧ ref.id = node.id ∧ ref.parentId = node.parentId := by
  unfold toRef at h
  cases hname : node.name with
  | none =>
    rw [hname] at h
    cases h
  | some name =>
    simp only [hname, Except.ok.injEq] at h
    subst h
    exact ⟨rfl, rfl, rfl⟩

theorem refs_from (h : raw.mapM toRef = .ok refs) : ∀ ref ∈ refs, ∃ node ∈ raw, toRef node = .ok ref := by
  induction raw generalizing refs with
  | nil =>
    obtain rfl := Except.ok.inj h
    exact nofun
  | cons node raw ih =>
    rw [List.mapM_cons] at h
    cases href : toRef node with
    | error reason =>
      rw [href] at h
      cases h
    | ok ref =>
      cases hrest : raw.mapM toRef with
      | error reason =>
        rw [href, hrest] at h
        cases h
      | ok rest =>
        rw [href, hrest] at h
        obtain rfl := Except.ok.inj h
        intro ref' hmem
        obtain rfl | hmem := List.mem_cons.mp hmem
        · exact ⟨node, List.mem_cons_self, href⟩
        · obtain ⟨node', hnode', href'⟩ := ih hrest ref' hmem
          exact ⟨node', List.mem_cons_of_mem node hnode', href'⟩

theorem parentsOf_index (h : account.nodes.mapM toRef = .ok refs) :
    Extends account.everParents (parentsOf (fileNodeIndex refs)) := by
  intro id e he
  obtain ⟨ref, href, rfl⟩ := Option.map_eq_some_iff.mp he
  have hid : ref.id = id := of_decide_eq_true (List.find?_some (p := fun ref : FileNodeRef => ref.id = id) href)
  obtain ⟨node, hnode, hto⟩ := refs_from h ref (List.mem_reverse.mp (List.mem_of_find?_eq_some href))
  obtain ⟨hname, hnodeId, hparent⟩ := toRef_ok hto
  rw [← hid, hnodeId, hparent]
  exact FileAccount.everParents_of_mem (List.mem_of_mem_filter hnode) hname

theorem readTree_sound (h : readTree stringify account.nodes = .ok tree) : Sound account.everParents tree := by
  unfold readTree at h
  cases hrefs : account.nodes.mapM toRef with
  | error reason =>
    rw [hrefs] at h
    cases h
  | ok refs =>
    rw [hrefs] at h
    have hempty : Sound account.everParents ⟨refs, ∅, ∅⟩ := by
      intro path node hnode
      simp at hnode
    exact keyNodes_sound (parentsOf_index hrefs) hempty h

theorem readOnce_sound {i : FileTurn} (h : readOnce stringify i account = .ok tree) : Sound account.everParents tree := by
  unfold readOnce at h
  cases hfault : i.fault with
  | some reason =>
    rw [hfault] at h
    cases h
  | none =>
    rw [hfault] at h
    exact readTree_sound h

end Reading

section Steps

variable (F : Parents String String)

/-- What a writer of a file at `path` asks for: that it is put where the path says, and what is remembered is there. -/
def FileCommand.Asked (path : String) : FileCommand → Prop
  | .create wanted => wanted.blobId.isSome → ∃ P, Leads F P wanted.parentId ∧ P ++ [wanted.name] = segmentsOf path
  | .remember _ path node => node.nodeType = some "directory" → Leads F (segmentsOf path) (some node.id)
  | _ => True

/-- What it hears: that the directories it is told of are where they are said to be. -/
def FileCommand.Heard : (c : FileCommand) → Except PassError c.Resp → Prop
  | .tree, .ok (some t) => Sound F t.2
  | .create wanted, .ok response => ∀ id, response.created = some id → F id = some (wanted.name, wanted.parentId)
  | _, _ => True

def Recalls (memory : FileMemory) : Prop := ∀ tree, memory.treeSnapshot = some (some tree) → Sound F tree

variable {F} {S : FileServer} {stringify : String → String} {i : FileTurn} {account : FileAccount} {memory : FileMemory}

theorem nodeKind_directory {node : FileNode} (h : nodeKind stringify node = .ok .directory) :
    node.nodeType = some "directory" := by
  unfold nodeKind at h
  by_cases hfile : node.nodeType = some "file"
  · rw [if_pos hfile] at h
    cases h
  · by_cases hdirectory : node.nodeType = some "directory"
    · exact hdirectory
    · rw [if_neg hfile, if_neg hdirectory] at h
      cases h

theorem Sound.remembered {path : String} {node : FileNode} {tree : TreeSnapshot} (h : Sound F tree)
    (hnode : node.nodeType = some "directory" → Leads F (segmentsOf path) (some node.id)) :
    Sound F (remembered stringify path node tree) := by
  unfold Jmap.remembered
  cases hkind : nodeKind stringify node with
  | error reason => exact h
  | ok kind =>
    cases kind with
    | file => exact h
    | directory => exact h.insert (hnode (nodeKind_directory hkind)) rfl

theorem Recalls.exec (h : Recalls F memory) {path : String} {c : FileCommand} (hc : c.Asked F path)
    (hF : Extends F (fileExec S stringify c i (account, memory)).2.1.everParents) :
    Recalls F (fileExec S stringify c i (account, memory)).2.2 := by
  cases c with
  | tree =>
    simp only [fileExec] at hF ⊢
    cases hmemory : memory.treeSnapshot with
    | some cached => exact h
    | none =>
      simp only [hmemory] at hF
      intro tree htree
      cases hread : readOnce stringify i account with
      | error reason =>
        rw [hread] at htree
        cases Option.some.inj htree
      | ok read =>
        rw [hread] at htree
        obtain rfl := Option.some.inj (Option.some.inj htree)
        exact (readOnce_sound hread).mono hF
  | remember generation path node =>
    simp only [fileExec]
    by_cases hgeneration : memory.generation = generation
    · rw [if_pos hgeneration]
      intro tree htree
      obtain ⟨cached, hcached, hmap⟩ := Option.map_eq_some_iff.mp htree
      obtain ⟨known, rfl, rfl⟩ := Option.map_eq_some_iff.mp hmap
      exact (h known hcached).remembered hc
    · rw [if_neg hgeneration]
      exact h
  | invalidate =>
    intro tree htree
    cases htree
  | readTree | create | update | destroy | get | upload => exact h

theorem Recalls.hears (h : Recalls F memory) (c : FileCommand)
    (hF : Extends F (fileExec S stringify c i (account, memory)).2.1.everParents) :
    c.Heard F ((fileExec S stringify c i (account, memory)).1.mapError .error) := by
  cases c with
  | tree =>
    simp only [fileExec] at hF ⊢
    cases hmemory : memory.treeSnapshot with
    | some cached =>
      cases cached with
      | none => trivial
      | some tree => exact h tree hmemory
    | none =>
      simp only [hmemory] at hF
      cases hread : readOnce stringify i account with
      | error reason => trivial
      | ok tree => exact (readOnce_sound hread).mono hF
  | create wanted =>
    simp only [fileExec, delivered] at hF ⊢
    cases hfault : i.fault with
    | some reason => trivial
    | none =>
      simp only [hfault] at hF
      exact fun id hid => hF _ _ (FileAccount.create_created hid)
  | readTree | invalidate | remember | update | destroy | get | upload => simp [FileCommand.Heard]

end Steps

section Writer

variable {F : Parents String String} {path : String} {nodeVersion : FileNode → String}

/-- The commands of a writer of a file at `path`. -/
def placed (F : Parents String String) (path : String) : Vocabulary FileCommand FileCommand.Resp PassError where
  asks := FileCommand.Asked F path
  hears := FileCommand.Heard F

theorem ask_yields {c : FileCommand} (h : c.Asked F path) : Yields (placed F path) (ask c) fun a => c.Heard F (.ok a) :=
  Yields.perform h fun _ ha => ha

theorem ask_any {c : FileCommand} (h : c.Asked F path) : Yields (placed F path) (ask c) fun _ => True :=
  (ask_yields h).weaken fun _ _ => trivial

theorem ask_tree : Yields (placed F path) (ask .tree) fun snapshot => ∀ t ∈ snapshot, Sound F t.2 := by
  apply (ask_yields (c := .tree) trivial).weaken
  rintro snapshot h t ht
  cases snapshot with
  | none => cases ht
  | some u =>
    obtain rfl := Option.some.inj ht
    exact h

theorem rememberNode_yields (snapshot : Option (ℕ × TreeSnapshot)) {at_ : String} {node : FileNode}
    (h : node.nodeType = some "directory" → Leads F (segmentsOf at_) (some node.id)) :
    Yields (placed F path) (rememberNode snapshot at_ node) fun _ => True := by
  cases snapshot with
  | none => exact .ret trivial
  | some t => exact ask_any h

theorem createDirectory_yields {name fullPath : String} {parentId : Option String} {P : List String}
    (snapshot : Option (ℕ × TreeSnapshot)) (hparent : Leads F P parentId) (hpath : segmentsOf fullPath = P ++ [name]) :
    Yields (placed F path) (createDirectory name parentId fullPath snapshot)
      fun id => Leads F (segmentsOf fullPath) (some id) := by
  have hplain : FileCommand.Asked F path (.create ⟨name, parentId, none⟩) := by
    intro hblob
    cases hblob
  apply (ask_yields hplain).bind
  intro response hheard
  cases hcreated : response.created.filter (· ≠ "") with
  | some id =>
    have hid : response.created = some id := (Option.filter_eq_some_iff.mp hcreated).1
    have hleads : Leads F (segmentsOf fullPath) (some id) := by
      rw [hpath]
      exact .under hparent (hheard id hid)
    apply (rememberNode_yields snapshot fun _ => hleads).bind
    intro _ _
    exact .ret hleads
  | none =>
    by_cases hexists : response.notCreated.map (·.type) = some "alreadyExists"
    · simp only [if_pos hexists]
      apply (ask_any (c := .invalidate) trivial).bind
      intro _ _
      apply ask_tree.bind
      intro again hagain
      cases hfound : again.bind fun t => t.2.directories.lookup fullPath with
      | none => exact .fail _
      | some found =>
        obtain ⟨t, ht, hlookup⟩ := Option.bind_eq_some_iff.mp hfound
        exact .ret (hagain t ht fullPath found hlookup)
    · simp only [if_neg hexists]
      exact .fail _

theorem ensureSegments_yields {above : String} {parentId : Option String} {names : List String}
    (habove : Leads F (segmentsOf above) parentId) (hnames : ∀ name ∈ names, IsSegment name) :
    Yields (placed F path) (ensureSegments above parentId names)
      fun id => Leads F (segmentsOf above ++ names) id := by
  induction names generalizing above parentId with
  | nil =>
    rw [List.append_nil]
    exact .ret habove
  | cons name names ih =>
    have hwalked := segmentsOf_below above (hnames name List.mem_cons_self)
    have hrest : ∀ id, Leads F (segmentsOf (if above = "" then name else above ++ "/" ++ name)) (some id) →
        Yields (placed F path) (ensureSegments (if above = "" then name else above ++ "/" ++ name) (some id) names)
          fun id => Leads F (segmentsOf above ++ name :: names) id := by
      intro id hid
      have hnext := ih hid fun n hn => hnames n (List.mem_cons_of_mem name hn)
      rwa [hwalked, List.append_assoc, List.singleton_append] at hnext
    apply ask_tree.bind
    intro snapshot hsnapshot
    cases snapshot.bind fun t => t.2.files.lookup (if above = "" then name else above ++ "/" ++ name) with
    | some node => exact .fail _
    | none =>
      cases hdirectory : snapshot.bind fun t => t.2.directories.lookup (if above = "" then name else above ++ "/" ++ name) with
      | some existing =>
        obtain ⟨t, ht, hlookup⟩ := Option.bind_eq_some_iff.mp hdirectory
        exact hrest existing.id (hsnapshot t ht _ existing hlookup)
      | none =>
        apply (createDirectory_yields snapshot habove hwalked).bind
        exact hrest

theorem parentIdFor_leads (hnamed : F "" = none) {P : List String} {id : Option String} (h : Leads F P id) :
    Leads F P (parentIdFor (id.getD "")) := by
  cases h with
  | top => exact .top
  | under above hparents =>
    rename_i id _
    have hid : id ≠ "" := by
      rintro rfl
      rw [hnamed] at hparents
      cases hparents
    rw [Option.getD_some, parentIdFor, if_neg hid]
    exact .under above hparents

theorem ensureDirectoryPath_yields (hnamed : F "" = none) (directory : String) :
    Yields (placed F path) (ensureDirectoryPath directory)
      fun id => Leads F (segmentsOf directory) (parentIdFor id) := by
  unfold ensureDirectoryPath
  by_cases hempty : directory = ""
  · rw [if_pos hempty, hempty, segmentsOf_empty]
    exact .ret .top
  · rw [if_neg hempty]
    have htop : Leads F (segmentsOf "") none := by
      rw [segmentsOf_empty]
      exact .top
    apply (ensureSegments_yields htop (segmentsOf_isSegment directory)).bind
    intro id hid
    rw [segmentsOf_empty, List.nil_append] at hid
    exact .ret (parentIdFor_leads hnamed hid)

theorem findFileByNaturalKey_yields (naturalKey : String) :
    Yields (placed F path) (findFileByNaturalKey naturalKey) fun _ => True := by
  apply (ask_any (c := .readTree) trivial).bind
  intro tree _
  exact .ret trivial

theorem storedNodeVersion_yields (targetId : String) :
    Yields (placed F path) (storedNodeVersion nodeVersion targetId) fun _ => True := by
  apply (ask_any (c := .get targetId) trivial).tryWith
  · exact fun _ => .ret trivial
  · exact fun _ _ => .ret trivial

theorem editedSince_yields (targetId : String) (expected : Option String) :
    Yields (placed F path) (editedSince nodeVersion targetId expected) fun _ => True := by
  cases expected with
  | none => exact .ret trivial
  | some version =>
    apply (storedNodeVersion_yields targetId).bind
    exact fun _ _ => .ret trivial

theorem rewriteFile_yields (raw : RawFileItem) (naturalKey : String) (expected : Option String) :
    Yields (placed F path) (rewriteFile nodeVersion raw naturalKey expected) fun _ => True := by
  apply (ask_any (c := .tree) trivial).bind
  intro snapshot _
  have hfound : Yields (placed F path) (fileAt snapshot naturalKey) fun _ => True := by
    unfold fileAt
    cases snapshot.bind fun t => t.2.files.lookup naturalKey with
    | some node => exact .ret trivial
    | none => exact findFileByNaturalKey_yields naturalKey
  apply hfound.bind
  intro found _
  cases found.filter (· ≠ "") with
  | none => exact .fail _
  | some targetId =>
    apply (editedSince_yields targetId expected).bind
    intro edited _
    cases edited with
    | true => exact .ret trivial
    | false =>
      cases raw.content with
      | none => exact .fail _
      | some content =>
        apply (ask_any (c := .upload content) trivial).bind
        intro blobId _
        apply (ask_any (c := .update targetId blobId) trivial).bind
        intro response _
        cases response.notUpdated with
        | some e => exact .fail _
        | none =>
          apply (storedNodeVersion_yields targetId).bind
          exact fun _ _ => .ret trivial

theorem settleFile_yields (snapshot : Option (ℕ × TreeSnapshot)) (naturalKey : String) (wanted : NodeCreate)
    (response : NodeSetResponse) :
    Yields (placed F path) (settleFile nodeVersion snapshot naturalKey wanted response) fun _ => True := by
  unfold settleFile
  cases response.created.filter (· ≠ "") with
  | some createdId =>
    have hfile : some "file" = some "directory" → Leads F (segmentsOf naturalKey) (some createdId) :=
      fun h => absurd h (by decide)
    apply (rememberNode_yields snapshot hfile).bind
    intro _ _
    apply (storedNodeVersion_yields createdId).bind
    exact fun _ _ => .ret trivial
  | none =>
    by_cases hexists : response.notCreated.map (·.type) = some "alreadyExists"
    · simp only [if_pos hexists]
      apply (ask_any (c := .invalidate) trivial).bind
      intro _ _
      apply (findFileByNaturalKey_yields naturalKey).bind
      intro found _
      cases found.filter (· ≠ "") with
      | some id => exact .ret trivial
      | none => exact .fail _
    · simp only [if_neg hexists]
      exact .fail _

theorem createFile_yields (hnamed : F "" = none) (hne : path ≠ "") (hlast : path.toList.getLast? ≠ some '/')
    (snapshot : Option (ℕ × TreeSnapshot)) (raw : RawFileItem) :
    Yields (placed F path) (createFile nodeVersion snapshot raw path) fun _ => True := by
  apply (ensureDirectoryPath_yields hnamed (parentPathOf path)).bind
  intro parentNodeId hparent
  cases raw.content with
  | none => exact .fail _
  | some content =>
    apply (ask_any (c := .upload content) trivial).bind
    intro blobId _
    have hplaced : FileCommand.Asked F path (.create ⟨lastSegment path, parentIdFor parentNodeId, some blobId⟩) :=
      fun _ => ⟨segmentsOf (parentPathOf path), hparent, segmentsOf_parent hne hlast⟩
    apply (ask_any hplaced).bind
    intro response _
    exact settleFile_yields snapshot path _ response

theorem normalizeRelativePath_last (path : String) : (normalizeRelativePath path).toList.getLast? ≠ some '/' := by
  intro h
  rw [normalizeRelativePath, String.toList_ofList, List.getLast?_reverse] at h
  generalize ((path.toList.map fun c => if c = '\\' then '/' else c).dropWhile (· == '/')).reverse = l at h
  have hhead := List.head?_dropWhile_not (· == '/') l
  rw [h] at hhead
  simp at hhead

/-- What a writer is asked to write, it puts at the path of the item, in whatever collection. -/
theorem upsertFile_yields (hnamed : F "" = none) (raw : RawFileItem) (options : UpsertOptions) :
    Yields (placed F (normalizeRelativePath raw.path)) (upsertFile nodeVersion raw options) fun _ => True := by
  unfold upsertFile
  have hlast := normalizeRelativePath_last raw.path
  generalize normalizeRelativePath raw.path = path at hlast ⊢
  by_cases hempty : path = ""
  · simp only [if_pos hempty]
    exact .fail _
  · simp only [if_neg hempty]
    by_cases hoverwrite : options.overwrite = true
    · simp only [if_pos hoverwrite]
      exact rewriteFile_yields raw _ _
    · simp only [if_neg hoverwrite]
      apply (ask_any (c := .tree) trivial).bind
      intro snapshot _
      by_cases hdirectory : (snapshot.bind fun t => t.2.directories.lookup path).isSome = true
      · simp only [if_pos hdirectory]
        exact .fail _
      · simp only [if_neg hdirectory]
        have hexisting : Yields (placed F path)
            (existingFile snapshot path) fun _ => True := by
          unfold existingFile
          cases snapshot with
          | some t => exact .ret trivial
          | none => exact findFileByNaturalKey_yields _
        apply hexisting.bind
        intro existing _
        cases existing.filter (· ≠ "") with
        | some id => exact .ret trivial
        | none => exact createFile_yields hnamed hempty hlast snapshot raw

end Writer

section OnTarget

variable {F : Parents String String} {S : FileServer} {stringify : String → String} {path : String} {α : Type}

theorem onTarget_requests {p : FileTask α} {Q : Except PassError α → Prop} (h : Emits (placed F path) p Q) :
    Emits (requests (T := fileApi S stringify) (FileCommand.Asked F path) (FileCommand.Heard F)) (p.onTarget S stringify) Q := by
  induction p with
  | ret a => exact h
  | fail e => exact h
  | call c k ih => exact ⟨h.1, fun r hr => ih r (h.2 r hr)⟩

theorem onTarget_writer {scope : Scope} {options : UpsertOptions} {keys : String → Prop} (p : FileTask α) :
    Emits (writerVocabulary scope options keys) (p.onTarget S stringify) fun _ => True := by
  induction p with
  | ret a => trivial
  | fail e => trivial
  | call c k ih => exact ⟨trivial, fun r _ => ih r⟩

end OnTarget

end OpenMigrate.Jmap
