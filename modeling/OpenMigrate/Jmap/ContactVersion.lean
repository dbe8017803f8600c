import OpenMigrate.Json.Stringify

namespace OpenMigrate.Jmap.Contacts

open Json

section Source

def CARD_PROPERTIES : List Units := [ascii "id", ascii "uid", ascii "addressBookIds", ascii "vCard"]

/-- A card as it is stored or read: an object whose keys differ. -/
structure Card where
  fields : Fields
  nodup : (fields.map Prod.fst).Nodup

def canonicalJson : Json → Units
  | .arr xs => 91 :: (join (xs.attach.map fun x => canonicalJson x.1) ++ [93])
  | .obj fields =>
    123 :: (join ((sortKeys fields).attach.map fun f => quote f.1.1 ++ 58 :: canonicalJson f.1.2) ++ [125])
  | value => stringify value
termination_by j => sizeOf j
decreasing_by
  · exact sizeOf_arr x.2
  · exact sizeOf_obj (mem_sortKeys.mp f.2)

variable (sha256Hex : Units → String)

def withoutId (card : Card) : Fields := card.fields.filter fun f => f.1 ≠ ascii "id"

/-- The fingerprint of the card that is read back, where one is. -/
def storedCardVersion (answer : Option Card) : Option String :=
  answer.map fun card => sha256Hex (canonicalJson (.obj (withoutId card)))

inductive Decision where
  | conflicted
  | goesOn
  deriving DecidableEq

/-- The guard before a card is written over or destroyed. -/
def ownershipGuard (expectedTargetVersion : Option String) (answer : Option Card) : Decision :=
  match expectedTargetVersion with
  | none => .goesOn
  | some expected =>
    match storedCardVersion sha256Hex answer with
    | none => .goesOn
    | some current => if current ≠ expected then .conflicted else .goesOn

def rewriteContact (expectedTargetVersion : Option String) (answer : Option Card) : Decision :=
  ownershipGuard sha256Hex expectedTargetVersion answer

def removeItem (expectedTargetVersion : Option String) (answer : Option Card) : Decision :=
  ownershipGuard sha256Hex expectedTargetVersion answer

end Source

section Edits

variable {sha256Hex : Units → String} {written stored : Card}

/-- The server's answer: the requested properties of the card, with keys in any order. -/
def Answers (card answer : Card) : Prop :=
  ∀ k, (answer.fields.lookup k).map normal = if k ∈ CARD_PROPERTIES then (card.fields.lookup k).map normal else none

/-- The cards agree on a property, up to the order of keys. -/
def AgreeOn (written stored : Card) (k : Units) : Prop :=
  (written.fields.lookup k).map normal = (stored.fields.lookup k).map normal

def SameCard (written stored : Card) : Prop := ∀ k, k ≠ ascii "id" → AgreeOn written stored k

/-- Cards of one version are the same, and one that is not is neither written over nor destroyed. -/
structure SeesEdits (sha256Hex : Units → String) (written stored : Card) : Prop where
  version : ∀ answer answer', Answers written answer → Answers stored answer' →
    storedCardVersion sha256Hex (some answer) = storedCardVersion sha256Hex (some answer') → SameCard written stored
  guarded : ∀ answer answer', Answers written answer → Answers stored answer' → ¬ SameCard written stored →
    rewriteContact sha256Hex (storedCardVersion sha256Hex (some answer)) (some answer') = .conflicted ∧
      removeItem sha256Hex (storedCardVersion sha256Hex (some answer)) (some answer') = .conflicted

theorem canonicalJson_eq (j : Json) : canonicalJson j = stringify (normal j) := by
  induction j using induct with
  | null => rw [canonicalJson, normal] <;> simp
  | bool b => rw [canonicalJson, normal] <;> simp
  | num text => rw [canonicalJson, normal] <;> simp
  | str s => rw [canonicalJson, normal] <;> simp
  | arr xs ih =>
    rw [canonicalJson, List.attach_map_val (f := canonicalJson), normal_arr, stringify_arr, List.map_map,
      List.map_congr_left ih]
    rfl
  | obj fields ih =>
    have hfields := List.attach_map_val (l := sortKeys fields) (f := fun f => quote f.1 ++ 58 :: canonicalJson f.2)
    rw [canonicalJson, hfields, normal_obj, stringify_obj, List.map_map]
    congr 3
    apply List.map_congr_left
    intro f hf
    rw [ih f (mem_sortKeys.mp hf)]
    rfl

/-- The canonical text of a value is that of another exactly if they differ in the order of keys alone. -/
theorem canonicalJson_eq_iff {a b : Json} : canonicalJson a = canonicalJson b ↔ normal a = normal b := by
  rw [canonicalJson_eq, canonicalJson_eq]
  constructor
  · exact stringify_injective
  · intro h
    rw [h]

theorem withoutId_nodup (card : Card) : ((withoutId card).map Prod.fst).Nodup :=
  card.nodup.sublist (List.filter_sublist.map Prod.fst)

theorem lookup_withoutId (card : Card) (k : Units) :
    (withoutId card).lookup k = if k = ascii "id" then none else card.fields.lookup k := by
  apply Option.ext
  intro j
  rw [lookup_eq_some_iff (withoutId_nodup card), withoutId, List.mem_filter]
  split
  · rename_i hid
    simp [hid]
  · rename_i hid
    rw [lookup_eq_some_iff card.nodup]
    simp [hid]

theorem version_eq_iff (hsha : Function.Injective sha256Hex) {answer answer' : Card} (h : Answers written answer)
    (h' : Answers stored answer') :
    storedCardVersion sha256Hex (some answer) = storedCardVersion sha256Hex (some answer') ↔
      ∀ k ∈ CARD_PROPERTIES, k ≠ ascii "id" → AgreeOn written stored k := by
  rw [storedCardVersion, storedCardVersion, Option.map_some, Option.map_some, Option.some.injEq, hsha.eq_iff,
    canonicalJson_eq_iff, normal_obj_eq_iff (withoutId_nodup answer) (withoutId_nodup answer')]
  apply forall_congr'
  intro k
  rw [lookup_withoutId, lookup_withoutId]
  by_cases hid : k = ascii "id"
  · simp [hid]
  · rw [if_neg hid, if_neg hid, h k, h' k]
    by_cases hk : k ∈ CARD_PROPERTIES
    · simp [hk, hid, AgreeOn]
    · simp [hk]

/-- The answer that lists the properties as the card does. -/
def answerOf (card : Card) : Card where
  fields := card.fields.filter fun f => f.1 ∈ CARD_PROPERTIES
  nodup := card.nodup.sublist (List.filter_sublist.map Prod.fst)

theorem answers_answerOf (card : Card) : Answers card (answerOf card) := by
  intro k
  have hlookup : (answerOf card).fields.lookup k = if k ∈ CARD_PROPERTIES then card.fields.lookup k else none := by
    apply Option.ext
    intro j
    rw [lookup_eq_some_iff (answerOf card).nodup, answerOf, List.mem_filter]
    split
    · rename_i hk
      rw [lookup_eq_some_iff card.nodup]
      simp [hk]
    · rename_i hk
      simp [hk]
  rw [hlookup]
  split <;> rfl

/-- An edit is seen exactly if it does not leave every property alone that the fingerprint is made of. -/
theorem seesEdits_iff (hsha : Function.Injective sha256Hex) :
    SeesEdits sha256Hex written stored ↔
      ((∀ k ∈ CARD_PROPERTIES, k ≠ ascii "id" → AgreeOn written stored k) → SameCard written stored) := by
  constructor
  · intro h hagree
    have hversion := (version_eq_iff hsha (answers_answerOf written) (answers_answerOf stored)).mpr hagree
    exact h.version _ _ (answers_answerOf written) (answers_answerOf stored) hversion
  · intro h
    have hconflict : ∀ answer answer', Answers written answer → Answers stored answer' → ¬ SameCard written stored →
        ownershipGuard sha256Hex (storedCardVersion sha256Hex (some answer)) (some answer') = .conflicted := by
      intro answer answer' hanswer hanswer' hne
      apply if_pos
      intro heq
      apply hne
      apply h
      exact (version_eq_iff hsha hanswer hanswer').mp (congrArg some heq.symm)
    refine ⟨fun answer answer' hanswer hanswer' heq => h ((version_eq_iff hsha hanswer hanswer').mp heq), ?_⟩
    intro answer answer' hanswer hanswer' hne
    exact ⟨hconflict answer answer' hanswer hanswer' hne, hconflict answer answer' hanswer hanswer' hne⟩

end Edits

namespace Sample

/-- A card of one address book. -/
def card (name book : String) : Card where
  fields := [(ascii "id", .str (ascii "c1")), (ascii "uid", .str (ascii "u")),
    (ascii "addressBookIds", .obj [(ascii book, .bool true)]), (ascii "name", .str (ascii name))]
  nodup := by
    change [ascii "id", ascii "uid", ascii "addressBookIds", ascii "name"].Nodup
    decide

def text (book : String) : Units := ascii ("\x7b\"addressBookIds\":\x7b\"" ++ book ++ "\":true\x7d,\"uid\":\"u\"\x7d")

/-- SHA-256 of two texts, and apart from these a text of its own for each. -/
def digest (t : Units) : String :=
  if t = text "b" then "57d8237044d79671cb2d3d5a434cf10a5e63653f2f7abe8a783b5e6c350707e4"
  else if t = text "c" then "b827db51cd966b5e865eb4d57bcda9d0b3f1dbd1ca92d42a5ce0d0a534aa1389"
  else String.ofList ('x' :: t.flatMap fun u => List.replicate u '0' ++ ['1'])

theorem replicate_injective {u v : ℕ} {rest rest' : List Char}
    (h : List.replicate u '0' ++ '1' :: rest = List.replicate v '0' ++ '1' :: rest') : u = v ∧ rest = rest' := by
  induction u generalizing v with
  | zero =>
    cases v with
    | zero => exact ⟨rfl, (List.cons.inj h).2⟩
    | succ v => exact absurd (List.cons.inj h).1 (by decide)
  | succ u ih =>
    cases v with
    | zero => exact absurd (List.cons.inj h).1 (by decide)
    | succ v =>
      obtain ⟨huv, hrest⟩ := ih (List.cons.inj h).2
      exact ⟨by rw [huv], hrest⟩

theorem unary_injective {s t : Units}
    (h : (s.flatMap fun u => List.replicate u '0' ++ ['1']) = t.flatMap fun u => List.replicate u '0' ++ ['1']) :
    s = t := by
  induction s generalizing t with
  | nil =>
    cases t with
    | nil => rfl
    | cons v t =>
      rw [List.flatMap_nil, List.flatMap_cons, List.append_assoc] at h
      cases v <;> cases h
  | cons u s ih =>
    cases t with
    | nil =>
      rw [List.flatMap_nil, List.flatMap_cons, List.append_assoc] at h
      cases u <;> cases h
    | cons v t =>
      rw [List.flatMap_cons, List.flatMap_cons, List.append_assoc, List.append_assoc] at h
      obtain ⟨rfl, hrest⟩ := replicate_injective h
      rw [ih hrest]

theorem digest_cases (t : Units) :
    t = text "b" ∧ digest t = "57d8237044d79671cb2d3d5a434cf10a5e63653f2f7abe8a783b5e6c350707e4" ∨
      t = text "c" ∧ digest t = "b827db51cd966b5e865eb4d57bcda9d0b3f1dbd1ca92d42a5ce0d0a534aa1389" ∨
      digest t = String.ofList ('x' :: t.flatMap fun u => List.replicate u '0' ++ ['1']) := by
  rw [digest]
  split
  · exact .inl ⟨‹_›, rfl⟩
  · split
    · exact .inr (.inl ⟨‹_›, rfl⟩)
    · exact .inr (.inr rfl)

theorem digest_injective : Function.Injective digest := by
  have hx : ∀ (c : Char) (rest t : List Char), c ≠ 'x' → String.ofList (c :: rest) ≠ String.ofList ('x' :: t) := by
    intro c rest t hc heq
    exact hc (List.cons.inj (String.ofList_injective heq)).1
  intro s t h
  obtain ⟨hs, hd⟩ | ⟨hs, hd⟩ | hd := digest_cases s <;> obtain ⟨ht, he⟩ | ⟨ht, he⟩ | he := digest_cases t <;>
    rw [hd, he] at h
  · rw [hs, ht]
  · exact absurd h (by decide)
  · exact absurd h (hx '5' _ _ (by decide))
  · exact absurd h (by decide)
  · rw [hs, ht]
  · exact absurd h (hx 'b' _ _ (by decide))
  · exact absurd h.symm (hx '5' _ _ (by decide))
  · exact absurd h.symm (hx 'b' _ _ (by decide))
  · exact unary_injective (List.cons.inj (String.ofList_injective h)).2

/-- A card that its owner moved to another address book is told from the card that was written. -/
theorem seesEdits_moved : SeesEdits digest (card "Ann" "b") (card "Ann" "c") := by
  apply (seesEdits_iff digest_injective).mpr
  intro h
  have hbook : normal (.obj [(ascii "b", .bool true)]) = normal (.obj [(ascii "c", .bool true)]) :=
    Option.some.inj (h (ascii "addressBookIds") (by decide) (by decide))
  rw [normal_obj, normal_obj] at hbook
  cases hbook

/-- A card whose name its owner changed has the version of the card that was written. -/
theorem name_unseen : ¬ SeesEdits digest (card "Ann" "b") (card "Anna" "b") := by
  intro h
  have hversion : withoutId (answerOf (card "Ann" "b")) = withoutId (answerOf (card "Anna" "b")) := rfl
  have hsame := h.version _ _ (answers_answerOf _) (answers_answerOf _) (by
    rw [storedCardVersion, storedCardVersion, Option.map_some, Option.map_some, hversion])
  have hname : normal (.str (ascii "Ann")) = normal (.str (ascii "Anna")) :=
    Option.some.inj (hsame (ascii "name") (by decide))
  rw [normal, normal] at hname
  · cases hname
  all_goals simp

end Sample

end OpenMigrate.Jmap.Contacts
