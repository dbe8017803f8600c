import OpenMigrate.Dav.DavSync
import OpenMigrate.Sync.IdReaders

namespace OpenMigrate.Dav

section Calendar

/-- `toLowerCase`, by what keys need of it: a vertical bar stays one, nothing becomes one, and the texts on either side
of it are lowered apart. -/
structure LowerCase where
  lower : List Char → List Char
  separator : ∀ s t, lower (s ++ '|' :: t) = lower s ++ '|' :: lower t
  bar : ∀ s, '|' ∈ lower s ↔ '|' ∈ s

theorem toLower_bar (c : Char) : c.toLower = '|' ↔ c = '|' := by
  constructor
  · intro h
    obtain hsame | ⟨-, hhigh, hlower⟩ := toLower_cases c
    · exact hsame.symm.trans h
    · rw [h] at hlower
      have hbar : '|'.toNat = 124 := rfl
      omega
  · rintro rfl
    decide

/-- The letters of ASCII. -/
def asciiLower : LowerCase where
  lower := lower
  separator s t := List.map_append
  bar s := by
    constructor
    · intro h
      obtain ⟨c, hc, hbar⟩ := List.mem_map.mp h
      rwa [← (toLower_bar c).mp hbar]
    · intro h
      exact List.mem_map.mpr ⟨'|', h, (toLower_bar '|').mpr rfl⟩

/-- The text that `calendarNaturalKeyHash` gets. -/
def keyOf (event : CalendarEvent) : String :=
  match truthy event.recurrenceId with
  | some recurrenceId => event.uid ++ "|" ++ recurrenceId
  | none => event.uid

/-- The text that is hashed. -/
def LowerCase.hashed (L : LowerCase) (event : CalendarEvent) : String :=
  "cal:" ++ String.ofList (L.lower (keyOf event).toList)

def LowerCase.naturalKeyForCalendar (L : LowerCase) (sha256Hex : String → String) (event : CalendarEvent) : String :=
  sha256Hex (L.hashed event)

theorem naturalKeyForCalendar_ascii (sha256Hex : String → String) (event : CalendarEvent) :
    naturalKeyForCalendar sha256Hex event = asciiLower.naturalKeyForCalendar sha256Hex event := rfl

/-- Equal up to letter case; an empty recurrence id is none. -/
def LowerCase.Alike (L : LowerCase) (e f : CalendarEvent) : Prop :=
  L.lower e.uid.toList = L.lower f.uid.toList ∧
    (truthy e.recurrenceId).map (fun id => L.lower id.toList) = (truthy f.recurrenceId).map fun id => L.lower id.toList

/-- Two texts that differ have one hash. -/
def Collides (sha256Hex : String → String) (s t : String) : Prop := s ≠ t ∧ sha256Hex s = sha256Hex t

/-- Events whose uids hold no separator have one key only if they are equal up to letter case, or the hash collides. -/
def KeysTellApart (L : LowerCase) (sha256Hex : String → String) : Prop :=
  ∀ e f : CalendarEvent, '|' ∉ e.uid.toList → '|' ∉ f.uid.toList →
    (L.naturalKeyForCalendar sha256Hex e = L.naturalKeyForCalendar sha256Hex f ↔
      L.Alike e f ∨ Collides sha256Hex (L.hashed e) (L.hashed f))

variable {L : LowerCase} {e f : CalendarEvent}

theorem lower_keyOf (L : LowerCase) (event : CalendarEvent) : L.lower (keyOf event).toList =
    L.lower event.uid.toList ++ ((truthy event.recurrenceId).map fun id => '|' :: L.lower id.toList).getD [] := by
  rw [keyOf]
  cases truthy event.recurrenceId with
  | none => exact (List.append_nil _).symm
  | some recurrenceId =>
    have htext : (event.uid ++ "|" ++ recurrenceId).toList = event.uid.toList ++ '|' :: recurrenceId.toList := by simp
    rw [htext, L.separator]
    rfl

theorem before_bar {s s' t t' : List Char} (hs : '|' ∉ s) (hs' : '|' ∉ s') (ht : ∀ c ∈ t.head?, c = '|')
    (ht' : ∀ c ∈ t'.head?, c = '|') (h : s ++ t = s' ++ t') : s = s' ∧ t = t' := by
  have hbefore : ∀ {s t : List Char}, '|' ∉ s → (∀ c ∈ t.head?, c = '|') →
      (s ++ t).takeWhile (· != '|') = s ∧ (s ++ t).dropWhile (· != '|') = t := by
    intro s t hs ht
    have hplain : ∀ c ∈ s, (c != '|') = true := by
      intro c hc
      have hne : c ≠ '|' := fun heq => hs (heq ▸ hc)
      simpa using hne
    rw [List.takeWhile_append_of_pos hplain, List.dropWhile_append_of_pos hplain]
    cases t with
    | nil => simp
    | cons c t =>
      obtain rfl := ht c rfl
      simp
  obtain ⟨hleft, hright⟩ := hbefore hs ht
  obtain ⟨hleft', hright'⟩ := hbefore hs' ht'
  rw [h] at hleft hright
  exact ⟨hleft.symm.trans hleft', hright.symm.trans hright'⟩

theorem lower_keyOf_eq (he : '|' ∉ e.uid.toList) (hf : '|' ∉ f.uid.toList) :
    L.lower (keyOf e).toList = L.lower (keyOf f).toList ↔ L.Alike e f := by
  have hhead : ∀ id : Option String, ∀ c ∈ ((id.map fun id => '|' :: L.lower id.toList).getD []).head?, c = '|' := by
    intro id
    cases id with
    | none => simp
    | some id => simp
  have htail : ∀ id id' : Option String, (id.map fun id => '|' :: L.lower id.toList).getD [] =
      (id'.map fun id => '|' :: L.lower id.toList).getD [] ↔
        id.map (fun id => L.lower id.toList) = id'.map fun id => L.lower id.toList := by
    intro id id'
    cases id with
    | none => cases id' <;> simp
    | some id => cases id' <;> simp
  rw [lower_keyOf, lower_keyOf]
  constructor
  · intro h
    rw [← L.bar] at he hf
    obtain ⟨huid, hid⟩ := before_bar he hf (hhead _) (hhead _) h
    exact ⟨huid, (htail _ _).mp hid⟩
  · rintro ⟨huid, hid⟩
    rw [huid, (htail _ _).mpr hid]

theorem keysTellApart (L : LowerCase) (sha256Hex : String → String) : KeysTellApart L sha256Hex := by
  intro e f he hf
  have hhashed : L.hashed e = L.hashed f ↔ L.Alike e f := by
    rw [LowerCase.hashed, LowerCase.hashed, String.append_right_inj, String.ofList_inj, lower_keyOf_eq he hf]
  rw [← hhashed]
  constructor
  · intro h
    by_cases hsame : L.hashed e = L.hashed f
    · exact .inl hsame
    · exact .inr ⟨hsame, h⟩
  · rintro (hsame | ⟨-, hhash⟩)
    · exact congrArg sha256Hex hsame
    · exact hhash

end Calendar

section MessageIds

/-- A pair of angle brackets that `normalizeMessageId` takes off: no line ends between them. -/
def Bracketed (s : List Char) : Prop := ∃ inner, s = '<' :: (inner ++ ['>']) ∧ inner.any isTerminator = false

/-- An id that has been normalised is the same when it is normalised again, if no pair of brackets is left around it. -/
def NormalizesOnce : Prop := ∀ id : String,
  normalizeMessageId (normalizeMessageId id) = normalizeMessageId id ↔ ¬ Bracketed (normalizeMessageId id).toList

/-- An id is the same with and without a pair of brackets, if no line ends in it and it has no pair of its own. -/
def SameInBrackets : Prop := ∀ id : String,
  normalizeMessageId ("<" ++ id ++ ">") = normalizeMessageId id ↔
    id.toList.any isTerminator = false ∧ ¬ Bracketed (trim id.toList)

variable {s : List Char}

theorem normalize_cases (s : List Char) :
    (∃ inner, trim s = '<' :: (inner ++ ['>']) ∧ inner.any isTerminator = false ∧
        normalizeMessageId (String.ofList s) = String.ofList (trim inner)) ∨
      ¬ Bracketed (trim s) ∧ normalizeMessageId (String.ofList s) = String.ofList (trim s) := by
  by_cases hpair : ∃ inner, trim s = '<' :: (inner ++ ['>'])
  · obtain ⟨inner, hinner⟩ := hpair
    have hnormal := Mail.normalize_bracketed hinner
    cases hclean : inner.any isTerminator with
    | false =>
      rw [hclean] at hnormal
      exact .inl ⟨inner, hinner, hclean, hnormal⟩
    | true =>
      rw [hclean] at hnormal
      refine .inr ⟨?_, hnormal⟩
      rintro ⟨inner', hinner', hclean'⟩
      obtain rfl := List.append_cancel_right (List.cons.inj (hinner.symm.trans hinner')).2
      rw [hclean] at hclean'
      cases hclean'
  · have hno : ∀ inner, trim s ≠ '<' :: (inner ++ ['>']) := fun inner h => hpair ⟨inner, h⟩
    refine .inr ⟨?_, Mail.normalize_plain hno⟩
    rintro ⟨inner, hinner, -⟩
    exact hno inner hinner

theorem trim_length (s : List Char) : (trim s).length ≤ s.length := (trim_sublist s).length_le

theorem normalize_trimmed (h : trim s = s) :
    normalizeMessageId (String.ofList s) = String.ofList s ↔ ¬ Bracketed s := by
  obtain ⟨inner, hinner, hclean, hnormal⟩ | ⟨hplain, hnormal⟩ := normalize_cases s
  · rw [h] at hinner
    rw [hnormal, String.ofList_inj]
    constructor
    · intro hsame
      have hle := trim_length inner
      have hlen := congrArg List.length hinner
      rw [hsame] at hle
      rw [List.length_cons, List.length_append, List.length_singleton] at hlen
      omega
    · intro hplain
      exact absurd ⟨inner, hinner, hclean⟩ hplain
  · rw [h] at hplain hnormal
    rw [hnormal]
    exact iff_of_true rfl hplain

theorem normalize_form (s : List Char) : ∃ t, trim t = t ∧ normalizeMessageId (String.ofList s) = String.ofList t := by
  obtain ⟨inner, -, -, hnormal⟩ | ⟨-, hnormal⟩ := normalize_cases s
  · exact ⟨trim inner, trim_trim inner, hnormal⟩
  · exact ⟨trim s, trim_trim s, hnormal⟩

theorem normalizesOnce : NormalizesOnce := by
  intro id
  obtain ⟨t, htrim, hnormal⟩ := normalize_form id.toList
  rw [String.ofList_toList] at hnormal
  rw [hnormal, String.toList_ofList]
  exact normalize_trimmed htrim

theorem trim_brackets (s : List Char) : trim ('<' :: (s ++ ['>'])) = '<' :: (s ++ ['>']) := by
  have hfront : trimStart ('<' :: (s ++ ['>'])) = '<' :: (s ++ ['>']) := by
    apply trimStart_of_head
    intro c hc
    obtain rfl := Option.some.inj hc
    decide
  have hback : trimStart ('<' :: (s ++ ['>'])).reverse = ('<' :: (s ++ ['>'])).reverse := by
    apply trimStart_of_head
    intro c hc
    rw [← List.cons_append, List.reverse_append] at hc
    obtain rfl := Option.some.inj hc
    decide
  rw [trim, hfront, hback, List.reverse_reverse]

theorem sameInBrackets : SameInBrackets := by
  intro id
  have htext : "<" ++ id ++ ">" = String.ofList ('<' :: (id.toList ++ ['>'])) := by
    apply String.toList_inj.mp
    simp
  have hbracketed := Mail.normalize_bracketed (trim_brackets id.toList)
  have hid : normalizeMessageId id = normalizeMessageId (String.ofList id.toList) := by rw [String.ofList_toList]
  have hlong := trim_length id.toList
  rw [htext, hbracketed, hid]
  cases hclean : id.toList.any isTerminator with
  | true =>
    have hlonger : ∀ t : List Char, t.length ≤ id.toList.length →
        String.ofList ('<' :: (id.toList ++ ['>'])) ≠ String.ofList t := by
      intro t ht hsame
      have hlen := congrArg List.length (String.ofList_inj.mp hsame)
      rw [List.length_cons, List.length_append, List.length_singleton] at hlen
      omega
    have hle : ∃ t, t.length ≤ id.toList.length ∧ normalizeMessageId (String.ofList id.toList) = String.ofList t := by
      obtain ⟨inner, hinner, -, hnormal⟩ | ⟨-, hnormal⟩ := normalize_cases id.toList
      · have hlen := congrArg List.length hinner
        have hinnerLong := trim_length inner
        rw [List.length_cons, List.length_append, List.length_singleton] at hlen
        exact ⟨trim inner, by omega, hnormal⟩
      · exact ⟨trim id.toList, hlong, hnormal⟩
    obtain ⟨t, ht, hnormal⟩ := hle
    rw [if_pos rfl, trim_brackets, hnormal]
    constructor
    · intro hsame
      exact absurd hsame (hlonger t ht)
    · rintro ⟨hno, -⟩
      cases hno
  | false =>
    rw [if_neg (by decide)]
    obtain ⟨inner, hinner, hinnerClean, hnormal⟩ | ⟨hplain, hnormal⟩ := normalize_cases id.toList
    · rw [hnormal, String.ofList_inj]
      constructor
      · intro hsame
        have hle := trim_length inner
        have hlen := congrArg List.length hinner
        rw [← hsame] at hle
        rw [List.length_cons, List.length_append, List.length_singleton] at hlen
        omega
      · rintro ⟨-, hplain⟩
        exact absurd ⟨inner, hinner, hinnerClean⟩ hplain
    · rw [hnormal]
      exact iff_of_true rfl ⟨rfl, hplain⟩

end MessageIds

section Main

/-- Calendar keys tell events apart whose uids hold no separator, and a message id is normalised by one pair of
brackets. -/
theorem natural_keys_normal (L : LowerCase) (sha256Hex : String → String) :
    KeysTellApart L sha256Hex ∧ NormalizesOnce ∧ SameInBrackets :=
  ⟨keysTellApart L sha256Hex, normalizesOnce, sameInBrackets⟩

/-- A separator in a uid gives two events one key, whatever the hash, and an id in two pairs of brackets is normalised
twice. -/
theorem natural_keys_collide :
    (¬ ∀ e f : CalendarEvent, (∀ sha256Hex, naturalKeyForCalendar sha256Hex e = naturalKeyForCalendar sha256Hex f) →
      asciiLower.Alike e f) ∧
    ¬ ∀ id : String, normalizeMessageId (normalizeMessageId id) = normalizeMessageId id := by
  constructor
  · intro h
    have halike := h { uid := "a|b" } { uid := "a", recurrenceId := some "b" } fun _ => rfl
    have huid := congrArg List.length halike.1
    revert huid
    decide +kernel
  · intro h
    have hnested := h "<<a>>"
    revert hnested
    decide +kernel

end Main

end OpenMigrate.Dav
