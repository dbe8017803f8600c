import OpenMigrate.Sync.Reconcile
import OpenMigrate.Throttle.Limiter

namespace OpenMigrate.Imap

open Throttle

section Cursor

/-- A number in a template. -/
def decimal (n : ℤ) : List Char := if n < 0 then '-' :: Nat.toDigits 10 n.natAbs else Nat.toDigits 10 n.natAbs

/-- `UIDVALIDITY:UIDNEXT` -/
def encodeImapCursor (uidValidity uidNext : ℤ) : List Char := decimal uidValidity ++ ':' :: decimal uidNext

/-- What cannot be read throws. -/
def decodeImapCursor (cursor : List Char) : Option (ℤ × ℤ) :=
  match cursor.splitOn ':' with
  | [uidValidity, uidNext] =>
    match parseInt (String.ofList uidValidity), parseInt (String.ofList uidNext) with
    | some uidValidity, some uidNext => some (uidValidity, uidNext)
    | _, _ => none
  | _ => none

theorem toDigits_digit {n : ℕ} : ∀ c ∈ Nat.toDigits 10 n, c.isDigit = true :=
  fun _ hc => Nat.isDigit_of_mem_toDigits (by decide) (by decide) hc

theorem digits_toDigits (n : ℕ) : digits (Nat.toDigits 10 n) = some n := by
  rw [digits, List.takeWhile_eq_self_iff.mpr toDigits_digit]
  have hvalue := Nat.ofDigitChars_ten_toDigits (n := n)
  rw [Nat.ofDigitChars_eq_foldl] at hvalue
  cases hdigits : Nat.toDigits 10 n with
  | nil => exact absurd hdigits Nat.toDigits_ne_nil
  | cons c rest =>
    rw [hdigits] at hvalue
    exact congrArg some hvalue

theorem isStrWhiteSpace_digit {c : Char} (h : c.isDigit = true) :
    isStrWhiteSpace c = false ∧ c ≠ '-' ∧ c ≠ '+' := by
  have hbounds : 48 ≤ c.toNat ∧ c.toNat ≤ 57 := Char.isDigit_iff_toNat.mp h
  refine ⟨?_, ?_, ?_⟩
  · rw [Bool.eq_false_iff]
    intro hspace
    simp only [isStrWhiteSpace, Bool.or_eq_true, decide_eq_true_eq, List.mem_cons, List.not_mem_nil, or_false,
      Bool.and_eq_true] at hspace
    omega
  · rintro rfl
    exact absurd hbounds (by decide)
  · rintro rfl
    exact absurd hbounds (by decide)

theorem parseInt_decimal (n : ℤ) : parseInt (String.ofList (decimal n)) = some n := by
  obtain ⟨c, rest, hdigits⟩ := List.exists_cons_of_ne_nil (@Nat.toDigits_ne_nil n.natAbs 10)
  have hvalue := digits_toDigits n.natAbs
  obtain ⟨hspace, hminus, hplus⟩ := isStrWhiteSpace_digit (toDigits_digit c (by rw [hdigits]; exact List.mem_cons_self))
  rw [parseInt, String.toList_ofList, decimal]
  by_cases hneg : n < 0
  · have hsign : isStrWhiteSpace '-' = false := by decide
    rw [if_pos hneg, List.dropWhile_cons_of_neg (by simp [hsign])]
    have hnumber : -((n.natAbs : ℕ) : ℤ) = n := by omega
    simp only [hvalue, Option.bind_eq_bind, Option.bind_some, Option.pure_def, Option.map_some, hnumber]
  · have hplain : (Nat.toDigits 10 n.natAbs).dropWhile isStrWhiteSpace = Nat.toDigits 10 n.natAbs := by
      rw [hdigits, List.dropWhile_cons_of_neg (by simp [hspace])]
    have hnumber : (n.natAbs : ℤ) = n := Int.natAbs_of_nonneg (not_lt.mp hneg)
    rw [hdigits] at hvalue
    rw [if_neg hneg, hplain, hdigits]
    split
    · rename_i heq
      exact absurd (List.cons.inj heq).1 hminus
    · rename_i heq
      exact absurd (List.cons.inj heq).1 hplus
    · simp only [hvalue, Option.bind_eq_bind, Option.bind_some, Option.pure_def, Option.map_some, hnumber]

theorem decimal_colon (n : ℤ) : ':' ∉ decimal n := by
  have hdigits : ':' ∉ Nat.toDigits 10 n.natAbs := by
    intro hmem
    have hdigit := toDigits_digit _ hmem
    cases hdigit
  rw [decimal]
  split
  · simp [hdigits]
  · exact hdigits

theorem decode_encode (uidValidity uidNext : ℤ) :
    decodeImapCursor (encodeImapCursor uidValidity uidNext) = some (uidValidity, uidNext) := by
  rw [decodeImapCursor, encodeImapCursor, List.splitOn_append_cons_self_of_not_mem (decimal_colon _),
    List.splitOn_eq_singleton (decimal_colon _)]
  simp only [parseInt_decimal]

end Cursor

section Source

/-- A message as FETCH lists it. -/
structure ListedMessage where
  uid : ℕ
  messageId : Option String
  flags : List String
  internalDate : String
  size : ℕ

/-- What SELECT tells of the mailbox; the server may leave UIDNEXT out. -/
structure SelectedMailbox where
  uidValidity : ℕ
  uidNext : Option ℕ
  messageCount : ℕ

structure MailItem where
  messageId : String
  folder : MailFolder
  keywords : List MailKeyword
  receivedAt : String
  size : ℕ
  sourceRef : String

structure Listing where
  items : List MailItem
  nextCursor : List Char
  unkeyable : Option ℕ

def mapImapFlagsToKeywords (flags : List String) : List MailKeyword :=
  flags.filterMap fun flag =>
    match String.ofList (lower flag.toList) with
    | "\\seen" => some .seen
    | "\\flagged" => some .flagged
    | "\\draft" => some .draft
    | "\\answered" => some .answered
    | _ => none

def messageIdFromEnvelopeValue (raw : Option String) : Option String :=
  match raw with
  | none => none
  | some raw =>
    if raw = "" then none
    else if raw.startsWith "<" && raw.endsWith ">" then some raw
    else some s!"<{raw}>"

def mailItem (folder : MailFolder) (msg : ListedMessage) : MailItem where
  messageId := (messageIdFromEnvelopeValue msg.messageId).getD ""
  folder := folder
  keywords := mapImapFlagsToKeywords msg.flags
  receivedAt := msg.internalDate
  size := msg.size
  sourceRef := s!"{folder.path}:{msg.uid}"

/-- `cursorUidNext`: where the listing goes on from, if the cursor is of this UIDVALIDITY. -/
def cursorUidNext (box : SelectedMailbox) (cursor : Option (List Char)) : Option ℤ :=
  match cursor.bind decodeImapCursor with
  | some (uidValidity, uidNext) => if uidValidity = box.uidValidity then some uidNext else none
  | none => none

/-- `uidNext` before the loop. -/
def startUidNext (box : SelectedMailbox) (cursor : Option (List Char)) : ℤ :=
  match cursorUidNext box cursor with
  | some uidNext => uidNext
  | none => if box.uidNext.getD 0 = 0 then 1 else box.uidNext.getD 0

structure Scan where
  items : List MailItem := []
  maxUidNext : ℤ
  unkeyable : ℕ := 0

/-- One round of the loop. -/
def scan (folder : MailFolder) (resume : Option ℤ) (s : Scan) (msg : ListedMessage) : Scan :=
  if resume.any fun uidNext => (msg.uid : ℤ) < uidNext then s
  else
    { items := s.items ++ [mailItem folder msg]
      maxUidNext := if s.maxUidNext < msg.uid then msg.uid + 1 else s.maxUidNext
      unkeyable := s.unkeyable + if (messageIdFromEnvelopeValue msg.messageId).getD "" = "" then 1 else 0 }

/-- `listSinceInternal`; `listing` is what FETCH yields for `1:*`. -/
def listSince (folder : MailFolder) (box : SelectedMailbox) (listing : List ListedMessage)
    (cursor : Option (List Char)) : Listing :=
  let messages := if box.messageCount = 0 then [] else listing
  let s := messages.foldl (scan folder (cursorUidNext box cursor)) { maxUidNext := startUidNext box cursor }
  { items := s.items
    nextCursor := encodeImapCursor box.uidValidity s.maxUidNext
    unkeyable := if 0 < s.unkeyable then some s.unkeyable else none }

end Source

section Scan

variable {folder : MailFolder} {resume : Option ℤ}

/-- A message that the cursor does not leave out. -/
def listed (resume : Option ℤ) (msg : ListedMessage) : Bool := !resume.any fun uidNext => (msg.uid : ℤ) < uidNext

def bump (maxUidNext : ℤ) (uid : ℕ) : ℤ := if maxUidNext < uid then uid + 1 else maxUidNext

theorem scan_items (s : Scan) (messages : List ListedMessage) :
    (messages.foldl (scan folder resume) s).items =
      s.items ++ (messages.filter (listed resume)).map (mailItem folder) := by
  induction messages generalizing s with
  | nil => simp
  | cons msg messages ih =>
    rw [List.foldl_cons, ih, scan, List.filter_cons, listed]
    split
    · rename_i hbelow
      simp [hbelow]
    · rename_i hlisted
      simp [hlisted]

theorem scan_maxUidNext (s : Scan) (messages : List ListedMessage) :
    (messages.foldl (scan folder resume) s).maxUidNext =
      ((messages.filter (listed resume)).map (·.uid)).foldl bump s.maxUidNext := by
  induction messages generalizing s with
  | nil => rfl
  | cons msg messages ih =>
    rw [List.foldl_cons, ih, scan, List.filter_cons, listed]
    split
    · rename_i hbelow
      simp [hbelow]
    · rename_i hlisted
      simp [hlisted, bump]

theorem listSince_items (box : SelectedMailbox) {listing : List ListedMessage} (hcount : box.messageCount = listing.length)
    (cursor : Option (List Char)) :
    (listSince folder box listing cursor).items =
      (listing.filter (listed (cursorUidNext box cursor))).map (mailItem folder) := by
  cases listing with
  | nil => simp [listSince]
  | cons msg listing =>
    have hsome : box.messageCount ≠ 0 := by simp [hcount]
    simp only [listSince, if_neg hsome, scan_items, List.nil_append]

theorem listSince_nextCursor (box : SelectedMailbox) {listing : List ListedMessage}
    (hcount : box.messageCount = listing.length) (cursor : Option (List Char)) :
    (listSince folder box listing cursor).nextCursor = encodeImapCursor box.uidValidity
      (((listing.filter (listed (cursorUidNext box cursor))).map (·.uid)).foldl bump (startUidNext box cursor)) := by
  cases listing with
  | nil => simp [listSince]
  | cons msg listing =>
    have hsome : box.messageCount ≠ 0 := by simp [hcount]
    simp only [listSince, if_neg hsome, scan_maxUidNext]

end Scan

end OpenMigrate.Imap
