import OpenMigrate.Imap.Listing
import Mathlib.Algebra.Ring.Parity
import Mathlib.Data.List.Chain
import Mathlib.Logic.Relation

namespace OpenMigrate.Imap

section Server

/-- A mailbox: every UID given so far is below `uidNext`, and those that come are not. -/
structure Mailbox where
  uidValidity : ℕ
  uidNext : ℕ
  messages : List ListedMessage
  ascending : (messages.map (·.uid)).Pairwise (· < ·)
  given : ∀ msg ∈ messages, 0 < msg.uid ∧ msg.uid < uidNext
  next_pos : 0 < uidNext

inductive Change : Mailbox → Mailbox → Prop where
  | arrive {m m' : Mailbox} (msg : ListedMessage) (validity : m'.uidValidity = m.uidValidity)
      (next : m.uidNext ≤ msg.uid) (messages : m'.messages = m.messages ++ [msg]) : Change m m'
  | expunge {m m' : Mailbox} (uid : ℕ) (validity : m'.uidValidity = m.uidValidity) (next : m'.uidNext = m.uidNext)
      (messages : m'.messages = m.messages.filter (·.uid != uid)) : Change m m'
  | renumber {m m' : Mailbox} (validity : m.uidValidity < m'.uidValidity) : Change m m'

def Later : Mailbox → Mailbox → Prop := Relation.ReflTransGen Change

/-- A poll: the mailbox it finds, and whether the server tells UIDNEXT. -/
structure Poll where
  mailbox : Mailbox
  told : Bool

/-- Polls of a mailbox, each after any changes to it. -/
structure History where
  polls : List Poll
  changes : polls.IsChain fun p q => Later p.mailbox q.mailbox

namespace Poll

variable (p : Poll) (folder : MailFolder) (cursor : Option (List Char))

def uids : List ℕ := p.mailbox.messages.map (·.uid)

def box : SelectedMailbox where
  uidValidity := p.mailbox.uidValidity
  uidNext := if p.told then some p.mailbox.uidNext else none
  messageCount := p.mailbox.messages.length

/-- What the source lists, given the cursor of the poll before. -/
def list : Listing := listSince folder p.box p.mailbox.messages cursor

/-- A message that an earlier poll of this UIDVALIDITY found. -/
def seen (earlier : List Poll) (msg : ListedMessage) : Bool :=
  earlier.any fun e => e.mailbox.uidValidity == p.mailbox.uidValidity && e.uids.contains msg.uid

/-- The UIDs from the bound on that the poll begins with, the last one first. -/
def fresh : List ℕ := (p.uids.filter fun uid : ℕ => startUidNext p.box cursor ≤ uid).reverse

end Poll

/-- How many UIDs follow one another without a gap, down from the first. -/
def runLength : List ℕ → ℕ
  | [] => 0
  | [_] => 1
  | u :: v :: rest => if u = v + 1 then runLength (v :: rest) + 1 else 1

/-- The last message is one that the next cursor does not pass: the UIDs without a gap before it are odd in number where
they begin at the bound, and even where they do not. -/
def Stays (start : ℤ) : List ℕ → Prop
  | [] => False
  | u :: rest => Odd (runLength (u :: rest)) ↔ (u : ℤ) + 1 - runLength (u :: rest) = start

/-- Every poll lists the messages that no earlier poll of the UIDVALIDITY found, each once, and no others. -/
def Exact (folder : MailFolder) : List Poll → Option (List Char) → List Poll → Prop
  | _, _, [] => True
  | earlier, cursor, p :: rest =>
    (p.list folder cursor).items =
        (p.mailbox.messages.filter fun msg => !p.seen earlier msg).map (mailItem folder) ∧
      Exact folder (earlier ++ [p]) (some (p.list folder cursor).nextCursor) rest

/-- A message that the cursor does not pass is gone when the mailbox is polled again. -/
def Settled (folder : MailFolder) : Option (List Char) → List Poll → Prop
  | cursor, p :: q :: rest =>
    (q.mailbox.uidValidity = p.mailbox.uidValidity → Stays (startUidNext p.box cursor) (p.fresh cursor) →
        ∀ u ∈ (p.fresh cursor).head?, u ∉ q.uids) ∧
      Settled folder (some (p.list folder cursor).nextCursor) (q :: rest)
  | _, _ => True

end Server

section Bounds

variable {start : ℤ}

theorem le_bump (maxUidNext : ℤ) (uid : ℕ) : maxUidNext ≤ bump maxUidNext uid := by
  rw [bump]
  split
  · omega
  · exact le_refl _

theorem le_foldl_bump (uids : List ℕ) (start : ℤ) : start ≤ uids.foldl bump start := by
  induction uids generalizing start with
  | nil => exact le_refl _
  | cons u uids ih => exact (le_bump start u).trans (ih _)

theorem foldl_bump_le {uids : List ℕ} {limit : ℤ} (hstart : start ≤ limit) (h : ∀ u ∈ uids, (u : ℤ) < limit) :
    uids.foldl bump start ≤ limit := by
  induction uids generalizing start with
  | nil => exact hstart
  | cons u uids ih =>
    rw [List.forall_mem_cons] at h
    apply ih _ h.2
    rw [bump]
    split
    · omega
    · exact hstart

theorem foldl_bump_filter (uids : List ℕ) {start low : ℤ} (h : low ≤ start) :
    uids.foldl bump start = (uids.filter fun uid : ℕ => low ≤ uid).foldl bump start := by
  induction uids generalizing start with
  | nil => rfl
  | cons u uids ih =>
    rw [List.foldl_cons, List.filter_cons]
    by_cases hu : low ≤ (u : ℤ)
    · rw [if_pos (decide_eq_true hu), List.foldl_cons, ih (h.trans (le_bump start u))]
    · have hkeep : bump start u = start := by
        rw [bump, if_neg (by omega)]
      rw [hkeep, ih h, if_neg (by simpa using hu)]

theorem bump_of_lt {m : ℤ} {u : ℕ} (h : m < u) : bump m u = u + 1 := if_pos h

theorem bump_self (u : ℕ) : bump u u = u := if_neg (lt_irrefl _)

theorem foldr_bump {u : ℕ} {rest : List ℕ} (hdesc : (u :: rest).Pairwise (· > ·))
    (hstart : ∀ v ∈ u :: rest, start ≤ (v : ℤ)) :
    (Stays start (u :: rest) ∧ (u :: rest).foldr (fun uid m => bump m uid) start = u) ∨
      (¬ Stays start (u :: rest) ∧ (u :: rest).foldr (fun uid m => bump m uid) start = u + 1) := by
  induction rest generalizing u with
  | nil =>
    have hone : Stays start [u] ↔ (u : ℤ) = start := by
      simp [Stays, runLength]
    rw [hone, List.foldr_cons, List.foldr_nil]
    obtain rfl | hlt := (hstart u List.mem_cons_self).eq_or_lt
    · exact .inl ⟨rfl, bump_self u⟩
    · exact .inr ⟨hlt.ne', bump_of_lt hlt⟩
  | cons v rest ih =>
    rw [List.pairwise_cons] at hdesc
    rw [List.forall_mem_cons] at hstart
    have huv : v < u := hdesc.1 v List.mem_cons_self
    have hv : start ≤ (v : ℤ) := hstart.2 v List.mem_cons_self
    have hrest := ih hdesc.2 hstart.2
    rw [List.foldr_cons]
    by_cases hnext : u = v + 1
    · -- a longer run: the parity and with it the place of the bound changes
      have hparity : Stays start (u :: v :: rest) ↔ ¬ Stays start (v :: rest) := by
        have hlength : runLength (u :: v :: rest) = runLength (v :: rest) + 1 := by rw [runLength, if_pos hnext]
        have hfirst : (u : ℤ) + 1 - (runLength (v :: rest) + 1 : ℕ) = (v : ℤ) + 1 - runLength (v :: rest) := by
          omega
        rw [Stays, hlength, hfirst, Stays, Nat.odd_add_one]
        tauto
      obtain ⟨hstays, hbound⟩ | ⟨hpassed, hbound⟩ := hrest
      · have hlt : (v : ℤ) < u := by omega
        rw [hbound, bump_of_lt hlt]
        exact .inr ⟨fun h => hparity.mp h hstays, rfl⟩
      · have hat : (v : ℤ) + 1 = u := by omega
        rw [hbound, hat, bump_self]
        exact .inl ⟨hparity.mpr hpassed, rfl⟩
    · -- a run of its own, which begins above the bound
      have hlength : runLength (u :: v :: rest) = 1 := by rw [runLength, if_neg hnext]
      have hpassed : ¬ Stays start (u :: v :: rest) := by
        rw [Stays, hlength]
        intro h
        have hbegin := h.mp odd_one
        omega
      have hlt : (v :: rest).foldr (fun uid m => bump m uid) start < u := by
        obtain ⟨-, hbound⟩ | ⟨-, hbound⟩ := hrest
        · rw [hbound]
          omega
        · rw [hbound]
          omega
      rw [bump_of_lt hlt]
      exact .inr ⟨hpassed, rfl⟩

end Bounds

section Step

variable {m m' : Mailbox} {p q : Poll} {folder : MailFolder} {cursor : Option (List Char)} {u : ℕ}

theorem later_cases (h : Later m m') : m.uidValidity < m'.uidValidity ∨
    m'.uidValidity = m.uidValidity ∧ m.uidNext ≤ m'.uidNext ∧
      ∀ msg ∈ m'.messages, msg.uid < m.uidNext → msg ∈ m.messages := by
  induction h with
  | refl => exact .inr ⟨rfl, le_refl _, fun msg hmsg _ => hmsg⟩
  | tail _ hchange ih =>
    cases hchange with
    | arrive msg validity next messages =>
      obtain hless | ⟨hsame, hnext, hkept⟩ := ih
      · exact .inl (validity ▸ hless)
      · rename_i m₁ m₂ _
        have hmem : msg ∈ m₂.messages := by
          rw [messages]
          simp
        have hgiven := (m₂.given msg hmem).2
        refine .inr ⟨validity.trans hsame, by omega, ?_⟩
        intro other hother huid
        rw [messages, List.mem_append, List.mem_singleton] at hother
        obtain hother | rfl := hother
        · exact hkept other hother huid
        · omega
    | expunge uid validity next messages =>
      obtain hless | ⟨hsame, hnext, hkept⟩ := ih
      · exact .inl (validity ▸ hless)
      · refine .inr ⟨validity.trans hsame, next ▸ hnext, ?_⟩
        intro other hother
        rw [messages] at hother
        exact hkept other (List.mem_filter.mp hother).1
    | renumber validity =>
      obtain hless | ⟨hsame, -, -⟩ := ih
      · exact .inl (hless.trans validity)
      · exact .inl (hsame ▸ validity)

/-- Where the bound is after a poll. -/
def Poll.bound (p : Poll) (cursor : Option (List Char)) : ℤ :=
  (p.fresh cursor).foldr (fun uid m => bump m uid) (startUidNext p.box cursor)

theorem list_nextCursor :
    (p.list folder cursor).nextCursor = encodeImapCursor p.mailbox.uidValidity (p.bound cursor) := by
  rw [Poll.list, listSince_nextCursor p.box rfl, Poll.bound, Poll.fresh, List.foldr_reverse]
  apply congrArg (encodeImapCursor _)
  cases hresume : cursorUidNext p.box cursor with
  | none =>
    have hall : p.mailbox.messages.filter (listed none) = p.mailbox.messages := by
      rw [List.filter_eq_self]
      exact fun _ _ => rfl
    rw [hall]
    exact foldl_bump_filter p.uids (le_refl _)
  | some uidNext =>
    have hstart : startUidNext p.box cursor = uidNext := by rw [startUidNext, hresume]
    have hlisted : (p.mailbox.messages.filter (listed (some uidNext))).map (·.uid) =
        p.uids.filter fun uid : ℕ => uidNext ≤ uid := by
      rw [Poll.uids, List.filter_map]
      apply congrArg (List.map ListedMessage.uid)
      apply List.filter_congr
      intro msg _
      rw [Bool.eq_iff_iff]
      simp [listed]
    rw [hlisted, hstart]

theorem cursor_of_poll : cursorUidNext q.box (some (p.list folder cursor).nextCursor) =
    if q.mailbox.uidValidity = p.mailbox.uidValidity then some (p.bound cursor) else none := by
  rw [list_nextCursor, cursorUidNext, Option.bind_some, decode_encode]
  by_cases hsame : q.mailbox.uidValidity = p.mailbox.uidValidity
  · have hbox : (p.mailbox.uidValidity : ℤ) = q.box.uidValidity := congrArg _ hsame.symm
    rw [if_pos hsame]
    exact if_pos hbox
  · have hbox : (p.mailbox.uidValidity : ℤ) ≠ q.box.uidValidity := fun h => hsame (Int.ofNat_inj.mp h).symm
    rw [if_neg hsame]
    exact if_neg hbox

theorem uids_lt : ∀ u ∈ p.uids, 0 < u ∧ u < p.mailbox.uidNext := by
  intro u hu
  obtain ⟨msg, hmsg, rfl⟩ := List.mem_map.mp hu
  exact p.mailbox.given msg hmsg

/-- Without a cursor for its UIDVALIDITY a poll begins at or below UIDNEXT. -/
theorem start_of_none (h : cursorUidNext p.box cursor = none) : startUidNext p.box cursor ≤ p.mailbox.uidNext := by
  have hpos := p.mailbox.next_pos
  rw [startUidNext, h]
  cases htold : p.told with
  | true =>
    simp [Poll.box, htold, hpos.ne']
  | false =>
    simp [Poll.box, htold]
    omega

theorem fresh_mem : u ∈ p.fresh cursor ↔ u ∈ p.uids ∧ startUidNext p.box cursor ≤ u := by
  rw [Poll.fresh, List.mem_reverse, List.mem_filter, decide_eq_true_eq]

theorem fresh_descending (p : Poll) (cursor : Option (List Char)) : (p.fresh cursor).Pairwise (· > ·) := by
  rw [Poll.fresh, List.pairwise_reverse]
  exact p.mailbox.ascending.filter _

theorem bound_le (h : startUidNext p.box cursor ≤ p.mailbox.uidNext) : p.bound cursor ≤ p.mailbox.uidNext := by
  rw [Poll.bound, Poll.fresh, List.foldr_reverse]
  apply foldl_bump_le h
  intro u hu
  have hlt := (uids_lt u (List.mem_filter.mp hu).1).2
  omega

theorem bound_le_iff (hu : u ∈ p.uids) :
    p.bound cursor ≤ u ↔ Stays (startUidNext p.box cursor) (p.fresh cursor) ∧ u ∈ (p.fresh cursor).head? := by
  have hmem : ∀ {v}, v ∈ p.fresh cursor ↔ v ∈ p.uids ∧ startUidNext p.box cursor ≤ v := fresh_mem
  have hdesc := fresh_descending p cursor
  rw [Poll.bound]
  cases hfresh : p.fresh cursor with
  | nil =>
    have hbelow : ¬ startUidNext p.box cursor ≤ u := by
      intro hle
      have hu' := hmem.mpr ⟨hu, hle⟩
      rw [hfresh] at hu'
      cases hu'
    exact iff_of_false hbelow fun h => by cases h.2
  | cons w rest =>
    rw [hfresh] at hmem hdesc
    have hstart : ∀ v ∈ w :: rest, startUidNext p.box cursor ≤ (v : ℤ) := fun v hv => (hmem.mp hv).2
    have hle : u ≤ w := by
      by_cases hu' : u ∈ w :: rest
      · obtain rfl | hrest := List.mem_cons.mp hu'
        · exact le_refl _
        · exact ((List.pairwise_cons.mp hdesc).1 u hrest).le
      · have hw := hstart w List.mem_cons_self
        have hlow : ¬ startUidNext p.box cursor ≤ u := fun hle => hu' (hmem.mpr ⟨hu, hle⟩)
        omega
    rw [List.head?_cons, Option.mem_some_iff]
    obtain ⟨hstays, hbound⟩ | ⟨hpassed, hbound⟩ := foldr_bump hdesc hstart
    · rw [hbound]
      constructor
      · intro h
        exact ⟨hstays, by omega⟩
      · rintro ⟨-, rfl⟩
        exact le_refl _
    · rw [hbound]
      exact iff_of_false (by omega) fun h => hpassed h.1

theorem listed_iff {uidNext : ℤ} {msg : ListedMessage} : listed (some uidNext) msg = true ↔ uidNext ≤ msg.uid := by
  simp [listed]

theorem list_items_none (h : cursorUidNext q.box cursor = none) :
    (q.list folder cursor).items = q.mailbox.messages.map (mailItem folder) := by
  have hall : q.mailbox.messages.filter (listed none) = q.mailbox.messages := by
    rw [List.filter_eq_self]
    exact fun _ _ => rfl
  rw [Poll.list, listSince_items q.box rfl, h, hall]

/-- Filters of which one lets more through give one list of items exactly if they agree. -/
theorem filter_items_iff {messages : List ListedMessage} {P Q : ListedMessage → Bool}
    (h : ∀ msg ∈ messages, Q msg = true → P msg = true) :
    (messages.filter P).map (mailItem folder) = (messages.filter Q).map (mailItem folder) ↔
      ∀ msg ∈ messages, P msg = true → Q msg = true := by
  constructor
  · intro hitems msg hmsg hP
    have hfilter : (messages.filter P).filter Q = messages.filter Q := by
      rw [List.filter_filter]
      apply List.filter_congr
      intro msg hmsg
      cases hQ : Q msg with
      | true => simp [h msg hmsg hQ]
      | false => simp
    have hlength := congrArg List.length hitems
    rw [List.length_map, List.length_map, ← hfilter, eq_comm, List.length_filter_eq_length_iff] at hlength
    exact hlength msg (List.mem_filter.mpr ⟨hmsg, hP⟩)
  · intro hall
    apply congrArg
    apply List.filter_congr
    intro msg hmsg
    rw [Bool.eq_iff_iff]
    exact ⟨hall msg hmsg, h msg hmsg⟩

theorem next_exact_iff {earlier : List Poll} (hearlier : ∀ e ∈ earlier, Later e.mailbox p.mailbox)
    (hlater : Later p.mailbox q.mailbox) (hfits : startUidNext p.box cursor ≤ p.mailbox.uidNext) :
    (q.list folder (some (p.list folder cursor).nextCursor)).items =
        (q.mailbox.messages.filter fun msg => !q.seen (earlier ++ [p]) msg).map (mailItem folder) ↔
      (q.mailbox.uidValidity = p.mailbox.uidValidity → Stays (startUidNext p.box cursor) (p.fresh cursor) →
        ∀ u ∈ (p.fresh cursor).head?, u ∉ q.uids) := by
  have hresume : cursorUidNext q.box (some (p.list folder cursor).nextCursor) =
      if q.mailbox.uidValidity = p.mailbox.uidValidity then some (p.bound cursor) else none := cursor_of_poll
  by_cases hsame : q.mailbox.uidValidity = p.mailbox.uidValidity
  · rw [if_pos hsame] at hresume
    obtain hless | ⟨-, hnext, hkept⟩ := later_cases hlater
    · omega
    -- what any earlier poll of the UIDVALIDITY found and is left, the poll before found
    have hseen : ∀ msg ∈ q.mailbox.messages, (q.seen (earlier ++ [p]) msg = true ↔ msg.uid ∈ p.uids) := by
      intro msg hmsg
      simp only [Poll.seen, List.any_append, List.any_cons, List.any_nil, Bool.or_false, Bool.or_eq_true,
        List.any_eq_true, Bool.and_eq_true, beq_iff_eq, List.contains_iff_mem]
      constructor
      · rintro (⟨e, he, hvalidity, huid⟩ | ⟨-, huid⟩)
        · obtain hless | ⟨-, hstep, -⟩ := later_cases (hearlier e he)
          · omega
          · have hgiven := (uids_lt msg.uid huid).2
            exact List.mem_map_of_mem (hkept msg hmsg (by omega))
        · exact huid
      · exact fun huid => .inr ⟨hsame.symm, huid⟩
    have hbelow : ∀ msg ∈ q.mailbox.messages, (msg.uid : ℤ) < p.bound cursor → msg.uid ∈ p.uids := by
      intro msg hmsg hlt
      have hbound := bound_le hfits
      exact List.mem_map_of_mem (hkept msg hmsg (by omega))
    rw [Poll.list, listSince_items q.box rfl, hresume, filter_items_iff]
    · constructor
      · intro hnew _ hstays u hhead huq
        obtain ⟨msg, hmsg, rfl⟩ := List.mem_map.mp huq
        have hup : msg.uid ∈ p.uids := (fresh_mem.mp (List.mem_of_mem_head? hhead)).1
        have hlisted := hnew msg hmsg (listed_iff.mpr ((bound_le_iff hup).mpr ⟨hstays, hhead⟩))
        rw [(hseen msg hmsg).mpr hup] at hlisted
        cases hlisted
      · intro hgone msg hmsg hlisted
        rw [Bool.not_eq_true', Bool.eq_false_iff]
        intro hfound
        have hup := (hseen msg hmsg).mp hfound
        obtain ⟨hstays, hhead⟩ := (bound_le_iff hup).mp (listed_iff.mp hlisted)
        exact hgone hsame hstays msg.uid hhead (List.mem_map_of_mem hmsg)
    · intro msg hmsg hunseen
      rw [listed_iff]
      by_contra hlt
      rw [(hseen msg hmsg).mpr (hbelow msg hmsg (not_le.mp hlt))] at hunseen
      cases hunseen
  · rw [if_neg hsame] at hresume
    have hunseen : q.mailbox.messages.filter (fun msg => !q.seen (earlier ++ [p]) msg) = q.mailbox.messages := by
      rw [List.filter_eq_self]
      intro msg _
      rw [Bool.not_eq_true', Bool.eq_false_iff]
      intro hfound
      obtain ⟨e, he, hmatch⟩ := List.any_eq_true.mp hfound
      rw [Bool.and_eq_true, beq_iff_eq] at hmatch
      have hp := later_cases hlater
      rw [List.mem_append, List.mem_singleton] at he
      obtain he | rfl := he
      · have hep := later_cases (hearlier e he)
        omega
      · exact hsame hmatch.1.symm
    rw [list_items_none hresume, hunseen]
    exact iff_of_true rfl fun h => absurd h hsame

theorem next_fits (hlater : Later p.mailbox q.mailbox) (hfits : startUidNext p.box cursor ≤ p.mailbox.uidNext) :
    startUidNext q.box (some (p.list folder cursor).nextCursor) ≤ q.mailbox.uidNext := by
  have hresume : cursorUidNext q.box (some (p.list folder cursor).nextCursor) =
      if q.mailbox.uidValidity = p.mailbox.uidValidity then some (p.bound cursor) else none := cursor_of_poll
  by_cases hsame : q.mailbox.uidValidity = p.mailbox.uidValidity
  · rw [if_pos hsame] at hresume
    rw [startUidNext, hresume]
    have hbound := bound_le hfits
    obtain hless | ⟨-, hnext, -⟩ := later_cases hlater
    · omega
    · exact hbound.trans (by omega)
  · rw [if_neg hsame] at hresume
    exact start_of_none hresume

theorem exact_from_iff {rest earlier : List Poll}
    (hlater : (earlier ++ p :: rest).Pairwise fun p q => Later p.mailbox q.mailbox)
    (hfits : startUidNext p.box cursor ≤ p.mailbox.uidNext) :
    Exact folder (earlier ++ [p]) (some (p.list folder cursor).nextCursor) rest ↔ Settled folder cursor (p :: rest) := by
  induction rest generalizing earlier p cursor with
  | nil => exact Iff.rfl
  | cons q rest ih =>
    obtain ⟨-, hrest, hcross⟩ := List.pairwise_append.mp hlater
    have hpq : Later p.mailbox q.mailbox := (List.pairwise_cons.mp hrest).1 q List.mem_cons_self
    have hearlier : ∀ e ∈ earlier, Later e.mailbox p.mailbox := fun e he => hcross e he p List.mem_cons_self
    have hsplit : earlier ++ p :: q :: rest = (earlier ++ [p]) ++ q :: rest := by simp
    rw [hsplit] at hlater
    rw [Exact, Settled, next_exact_iff hearlier hpq hfits, ih hlater (next_fits hpq hfits)]

end Step

/-- Over every history of a mailbox each message of a UIDVALIDITY is listed once, by the first poll that finds it, exactly
if every message that a cursor does not pass is gone by the next poll of the UIDVALIDITY. -/
theorem mailbox_polls_exact_iff (folder : MailFolder) (h : History) :
    Exact folder [] none h.polls ↔ Settled folder none h.polls := by
  have htrans : IsTrans Poll fun p q => Later p.mailbox q.mailbox := ⟨fun _ _ _ => Relation.ReflTransGen.trans⟩
  have hlater : h.polls.Pairwise fun p q => Later p.mailbox q.mailbox := h.changes.pairwise
  cases hpolls : h.polls with
  | nil => exact Iff.rfl
  | cons p rest =>
    rw [hpolls] at hlater
    have hfirst : (p.list folder none).items =
        (p.mailbox.messages.filter fun msg => !p.seen [] msg).map (mailItem folder) := by
      have hall : p.mailbox.messages.filter (fun msg => !p.seen [] msg) = p.mailbox.messages := by
        rw [List.filter_eq_self]
        exact fun _ _ => rfl
      rw [list_items_none rfl, hall]
    rw [Exact, and_iff_right hfirst]
    have hrest : ([] ++ p :: rest).Pairwise fun p q : Poll => Later p.mailbox q.mailbox := hlater
    exact exact_from_iff hrest (start_of_none rfl)

namespace Sample

def inbox : MailFolder where
  path := "INBOX"
  specialUse := .inbox

def message : ListedMessage where
  uid := 5
  messageId := some "<a@b>"
  flags := []
  internalDate := "2026-01-01T00:00:00.000Z"
  size := 1

def before : Mailbox where
  uidValidity := 1
  uidNext := 5
  messages := []
  ascending := .nil
  given := by simp
  next_pos := by decide

def after : Mailbox where
  uidValidity := 1
  uidNext := 6
  messages := [message]
  ascending := List.pairwise_singleton _ _
  given := by simp [message]
  next_pos := by decide

/-- An empty mailbox, one message under the UIDNEXT of the cursor, and nothing more. -/
def oneArrival : History where
  polls := [⟨before, true⟩, ⟨after, true⟩, ⟨after, true⟩]
  changes := .cons_cons (.single (.arrive message rfl (le_refl _) rfl)) (.cons_cons .refl (.singleton _))

end Sample

/-- The message is listed again by the poll after the one that found it. -/
theorem message_listed_twice : ¬ Exact Sample.inbox [] none Sample.oneArrival.polls := by
  rintro ⟨-, -, hthird, -⟩
  exact absurd (congrArg List.length hthird) (by decide +kernel)

end OpenMigrate.Imap
