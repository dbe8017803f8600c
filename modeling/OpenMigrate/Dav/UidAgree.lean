import OpenMigrate.Dav.Uid

namespace OpenMigrate.Dav

namespace ContentLine

variable (l : ContentLine)

/-- A UID property, in a group or not. -/
def isUidProperty : Bool := lower l.name.chars == ['u', 'i', 'd']

def isUid : Bool := l.group.isNone && l.isUidProperty

def isBareUid : Bool := l.isUid && l.params.isEmpty

/-- What follows the first colon, which may stand in a parameter. -/
def behindColon : List Char := ((l.paramChars ++ ':' :: l.value).dropWhile (· != ':')).tail

end ContentLine

section Lines

variable {l : ContentLine} {rest : List Char} {c : Char}

theorem isUid_iff : lower l.head = ['u', 'i', 'd'] ↔ l.isUid = true := by
  rw [ContentLine.isUid, Bool.and_eq_true, ContentLine.isUidProperty, beq_iff_eq, ContentLine.head,
    ContentLine.groupChars]
  cases l.group with
  | none => simp
  | some g =>
    constructor
    · intro huid
      have hdot : '.'.toLower ∈ ['u', 'i', 'd'] := by
        rw [← huid, lower]
        exact List.mem_map_of_mem (by simp)
      exact absurd hdot (by decide)
    · rintro ⟨hnone, -⟩
      cases hnone

theorem takeWhile_line {p : Char → Bool} {v : List Char} (hv : ∀ c ∈ v, p c = true)
    (hrest : ∀ c ∈ rest.head?, p c = false) : (v ++ rest).takeWhile p = v := by
  rw [List.takeWhile_append_of_pos hv]
  cases rest with
  | nil => simp
  | cons c rest => rw [List.takeWhile_cons, hrest c rfl, if_neg Bool.false_ne_true, List.append_nil]

theorem toTerminator {v : List Char} (hv : ∀ c ∈ v, isTerminator c = false) (hrest : AtEnd rest) :
    (v ++ rest).takeWhile (fun c => !isTerminator c) = v := by
  apply takeWhile_line
  · intro c hc
    rw [hv c hc]
    rfl
  · intro c hc
    rw [isTerminator_of_isBreak (hrest c hc)]
    rfl

theorem toBreak {v : List Char} (hv : ∀ c ∈ v, isBreak c = false) (hrest : AtEnd rest) :
    (v ++ rest).takeWhile (fun c => !isBreak c) = v := by
  apply takeWhile_line
  · intro c hc
    rw [hv c hc]
    rfl
  · intro c hc
    rw [hrest c hc]
    rfl

theorem text_split (l : ContentLine) :
    ∃ c more, EndsName c ∧ l.text = l.head ++ c :: more ∧ l.paramChars ++ ':' :: l.value = c :: more ∧
      (c = ':' ∧ l.params = [] ∧ more = l.value ∨ c = ';' ∧ l.params ≠ []) := by
  obtain ⟨c, more, htail, hc⟩ := tail_head l
  refine ⟨c, more, hc.imp And.left And.left, ?_, htail, hc⟩
  rw [ContentLine.text, htail]

theorem behindColon_bare (h : l.params = []) : l.behindColon = l.value := by
  rw [ContentLine.behindColon, ContentLine.paramChars, h]
  rfl

theorem behindColon_sublist (l : ContentLine) : l.behindColon.Sublist l.text := by
  rw [ContentLine.behindColon, ContentLine.text]
  exact ((List.tail_sublist _).trans (List.dropWhile_sublist _)).trans (List.sublist_append_right _ _)

theorem uidValue_none {s : List Char} (h : ∀ d x, afterUid s = some (d :: x) → d ≠ ':' ∧ d ≠ ';') :
    uidValue s = none := by
  rw [uidValue]
  split
  · rename_i hafter
    exact absurd rfl (h _ _ hafter).1
  · rename_i hafter
    exact absurd rfl (h _ _ hafter).2
  · rfl

theorem bareUidValue_none {s : List Char} (h : ∀ d x, afterUid s = some (d :: x) → d ≠ ':') :
    bareUidValue s = none := by
  rw [bareUidValue]
  split
  · rename_i hafter
    exact absurd rfl (h _ _ hafter)
  · rfl

theorem uidText_none {s : List Char} (h : ∀ d x, afterUid s = some (d :: x) → d ≠ ':' ∧ whiteSpace d = false) :
    uidText s = none := by
  rw [uidText]
  split
  · rename_i d x hafter
    obtain ⟨hcolon, hwhite⟩ := h d x hafter
    simp [hcolon, hwhite]
  · rfl

theorem name_goes_on {s : List Char} (h : ∀ d x, afterUid s = some (d :: x) → d ∈ l.head) :
    uidValue s = none ∧ bareUidValue s = none ∧ uidText s = none := by
  refine ⟨uidValue_none ?_, bareUidValue_none ?_, uidText_none ?_⟩
  · intro d x hafter
    exact (head_plain (h d x hafter)).2.2
  · intro d x hafter
    exact (head_plain (h d x hafter)).2.2.1
  · intro d x hafter
    exact ⟨(head_plain (h d x hafter)).2.2.1, head_not_whiteSpace (h d x hafter)⟩

theorem uidValue_line (hrest : AtEnd rest) :
    uidValue (l.text ++ rest) = if l.isUid then some l.behindColon else none := by
  obtain ⟨c, more, hname, htext, htail, hc⟩ := text_split l
  have hseen : ∀ c ∈ l.behindColon, isTerminator c = false := fun c hc =>
    text_line ((behindColon_sublist l).subset hc)
  rw [htext, List.append_assoc, List.cons_append]
  obtain ⟨huid, hafter⟩ | ⟨huid, hafter⟩ := afterUid_head l.head (more ++ rest) hname
  · rw [if_pos (isUid_iff.mp huid), uidValue, hafter]
    obtain ⟨rfl, hparams, rfl⟩ | ⟨rfl, -⟩ := hc
    · rw [behindColon_bare hparams] at hseen ⊢
      exact congrArg some (toTerminator hseen hrest)
    · have hcolon : ':' ∈ more := by
        have hin : ':' ∈ l.paramChars ++ ':' :: l.value := by simp
        rw [htail, List.mem_cons] at hin
        exact hin.resolve_left (by decide)
      obtain ⟨before, value, hmore, hno⟩ := List.eq_append_cons_of_mem hcolon
      have hbefore : ∀ c ∈ before, (c != ':') = true := by
        intro c hc
        rw [bne_iff_ne]
        rintro rfl
        exact hno hc
      have hline : ∀ c ∈ before, (c != ':' && !isBreak c) = true := by
        intro c hc
        have hbreak : isBreak c = false := by
          apply text_break (l := l)
          rw [htext, hmore]
          simp [hc]
        rw [hbefore c hc, hbreak]
        rfl
      have hbehind : l.behindColon = value := by
        rw [ContentLine.behindColon, htail, hmore, List.dropWhile_cons_of_pos (by rfl),
          List.dropWhile_append_of_pos hbefore, List.dropWhile_cons_of_neg (by decide), List.tail_cons]
      have hdrop : (more ++ rest).dropWhile (fun c => c != ':' && !isBreak c) = ':' :: (value ++ rest) := by
        rw [hmore, List.append_assoc, List.dropWhile_append_of_pos hline, List.cons_append,
          List.dropWhile_cons_of_neg (by decide)]
      rw [hbehind] at hseen ⊢
      have hread := toTerminator hseen hrest
      simp only [hdrop, hread]
  · rw [if_neg (fun hl => huid (isUid_iff.mpr hl))]
    exact (name_goes_on hafter).1

/-- A line shown as it is but for its value. -/
def Shows (l : ContentLine) (shown v : List Char) : Prop :=
  ∃ c more, EndsName c ∧ shown = l.head ++ c :: more ∧
    (c = ':' ∧ l.params = [] ∧ more = v ∨ c = ';' ∧ l.params ≠ [])

theorem shows_text (l : ContentLine) : Shows l l.text l.value := by
  obtain ⟨c, more, hname, htext, -, hc⟩ := text_split l
  exact ⟨c, more, hname, htext, hc⟩

theorem isBareUid_iff : l.isBareUid = true ↔ l.isUid = true ∧ l.params = [] := by
  rw [ContentLine.isBareUid, Bool.and_eq_true, List.isEmpty_iff]

variable {shown v : List Char}

theorem bareUidValue_shown (h : Shows l shown v) (hone : ∀ c ∈ shown, isTerminator c = false) (hrest : AtEnd rest) :
    bareUidValue (shown ++ rest) = if l.isBareUid then some v else none := by
  obtain ⟨c, more, hname, rfl, hc⟩ := h
  rw [List.append_assoc, List.cons_append]
  obtain ⟨huid, hafter⟩ | ⟨huid, hafter⟩ := afterUid_head l.head (more ++ rest) hname
  · obtain ⟨rfl, hparams, rfl⟩ | ⟨rfl, hparams⟩ := hc
    · rw [if_pos (isBareUid_iff.mpr ⟨isUid_iff.mp huid, hparams⟩), bareUidValue, hafter]
      exact congrArg some (toTerminator (fun c hc => hone c (by simp [hc])) hrest)
    · rw [if_neg (fun hbare => hparams (isBareUid_iff.mp hbare).2), bareUidValue, hafter]
      simp
  · rw [if_neg (fun hbare => huid (isUid_iff.mpr (isBareUid_iff.mp hbare).1))]
    exact (name_goes_on hafter).2.1

theorem uidText_shown (h : Shows l shown v) (hone : ∀ c ∈ shown, isBreak c = false) (hrest : AtEnd rest) :
    uidText (shown ++ rest) = if l.isBareUid ∧ v ≠ [] then some v else none := by
  obtain ⟨c, more, hname, rfl, hc⟩ := h
  rw [List.append_assoc, List.cons_append]
  obtain ⟨huid, hafter⟩ | ⟨huid, hafter⟩ := afterUid_head l.head (more ++ rest) hname
  · obtain ⟨rfl, hparams, rfl⟩ | ⟨rfl, hparams⟩ := hc
    · have hmore := toBreak (v := more) (fun c hc => hone c (by simp [hc])) hrest
      simp only [uidText, hafter, hmore, isBareUid_iff, isUid_iff.mp huid, hparams, true_or, true_and]
    · have hwhite : whiteSpace ';' = false := rfl
      rw [if_neg (fun hbare => hparams (isBareUid_iff.mp hbare.1).2), uidText, hafter]
      simp [hwhite]
  · rw [if_neg (fun hbare => huid (isUid_iff.mpr (isBareUid_iff.mp hbare.1).1))]
    exact (name_goes_on hafter).2.2

end Lines

section Folded

/-- The value without the blanks that follow its folds. -/
def FoldedLine.tightValue (l : FoldedLine) : List Char :=
  Folding.tight (l.folding.drop (l.line.text.length - l.line.value.length))

theorem shows_tight (l : FoldedLine) : Shows l.line l.folding.tight l.tightValue := by
  obtain ⟨c, more, hname, htext, -, hc⟩ := text_split l.line
  have hplain : Folding.plain (l.folding.take (l.line.head.length + 1)) = l.line.head ++ [c] := by
    rw [Folding.plain, List.map_take, ← Folding.plain, l.plain, htext, List.take_append, List.take_of_length_le
      (Nat.le_succ _), Nat.add_sub_cancel_left, List.take_succ_cons, List.take_zero]
  have hblank : ∀ d ∈ Folding.plain (l.folding.take (l.line.head.length + 1)), isBlank d = false := by
    intro d hd
    rw [hplain, List.mem_append, List.mem_singleton] at hd
    obtain hd | rfl := hd
    · exact (head_plain hd).2.1
    · obtain rfl | rfl := hname <;> rfl
  have hne : l.folding.take (l.line.head.length + 1) ≠ [] := by
    intro hnil
    rw [hnil] at hplain
    exact List.append_ne_nil_of_right_ne_nil _ (List.cons_ne_nil c []) hplain.symm
  have htight : l.folding.tight =
      l.line.head ++ c :: Folding.tight (l.folding.drop (l.line.head.length + 1)) := by
    have happend := tightFrom_append (l.folding.drop (l.line.head.length + 1)) false hblank hne
    rw [List.take_append_drop, hplain, List.append_assoc] at happend
    exact happend
  refine ⟨c, _, hname, htight, ?_⟩
  obtain ⟨rfl, hparams, hvalue⟩ | hsemi := hc
  · refine .inl ⟨rfl, hparams, ?_⟩
    have hlength : l.line.text.length - l.line.value.length = l.line.head.length + 1 := by
      rw [htext, hvalue, List.length_append, List.length_cons]
      omega
    rw [FoldedLine.tightValue, hlength]
  · exact .inr hsemi

/-- What stands before the first fold, and the fold with what comes behind it. -/
def Folding.firstPiece : Folding → List Char × Option (Fold × Folding)
  | [] => ([], none)
  | (some f, c) :: t => ([], some (f, (none, c) :: t))
  | (none, c) :: t => (c :: (firstPiece t).1, (firstPiece t).2)

def Fold.blank (f : Fold) : Char := if f.tab then '\t' else ' '

/-- What the first physical line shows of a UID: the text behind the colon. A line feed right behind `UID` is taken for
the colon, and the text is that of the second physical line. -/
def FoldedLine.shown (l : FoldedLine) : Option (List Char) :=
  match l.folding.firstPiece with
  | (u :: i :: d :: x :: text, _) =>
    if lower [u, i, d] = ['u', 'i', 'd'] ∧ x = ':' ∧ text ≠ [] then some text else none
  | ([u, i, d], some (f, after)) =>
    if lower [u, i, d] = ['u', 'i', 'd'] ∧ f.lineEnd = .lf then some (f.blank :: after.firstPiece.1) else none
  | _ => none

/-- What comes behind the first piece. -/
def Folding.behind (t : Folding) : List Char :=
  match t.firstPiece.2 with
  | some (f, after) => f.chars ++ after.folded
  | none => []

variable {rest : List Char}

theorem folded_pieces (t : Folding) : t.folded = t.firstPiece.1 ++ t.behind := by
  induction t with
  | nil => rfl
  | cons e t ih =>
    obtain ⟨f, c⟩ := e
    cases f with
    | some f =>
      rw [folded_some]
      rfl
    | none =>
      rw [folded_none, ih]
      rfl

theorem firstPiece_begins (t : Folding) : t.firstPiece.1 <+: t.plain := by
  induction t with
  | nil => exact List.prefix_rfl
  | cons e t ih =>
    obtain ⟨f, c⟩ := e
    cases f with
    | some f => exact List.nil_prefix
    | none => exact (List.prefix_cons_inj c).mpr ih

theorem firstPiece_whole {t : Folding} (h : t.firstPiece.2 = none) : t.firstPiece.1 = t.plain := by
  induction t with
  | nil => rfl
  | cons e t ih =>
    obtain ⟨f, c⟩ := e
    cases f with
    | some f => cases h
    | none => exact congrArg (c :: ·) (ih h)

theorem fold_atEnd (f : Fold) (rest : List Char) : AtEnd (f.chars ++ rest) := by
  cases hend : f.lineEnd with
  | crlf =>
    rw [Fold.chars, hend]
    rintro c ⟨⟩
    rfl
  | lf =>
    rw [Fold.chars, hend]
    rintro c ⟨⟩
    rfl

theorem behind_atEnd (t : Folding) (hrest : AtEnd rest) : AtEnd (t.behind ++ rest) := by
  rw [Folding.behind]
  split
  · rw [List.append_assoc]
    exact fold_atEnd _ _
  · exact hrest

theorem atEnd_lower (h : AtEnd rest) : ∀ c ∈ rest.head?, c.toLower ∉ ['u', 'i', 'd'] := by
  intro c hc
  have hbreak := h c hc
  simp only [isBreak, Bool.or_eq_true, beq_iff_eq] at hbreak
  obtain rfl | rfl := hbreak <;> decide

theorem fourth_char {l : ContentLine} {d : Char} {x : List Char} (h : afterUid l.text = some (d :: x)) :
    whiteSpace d = false := by
  obtain ⟨c, more, hname, htext, -, -⟩ := text_split l
  rw [htext] at h
  obtain ⟨-, hafter⟩ | ⟨-, hafter⟩ := afterUid_head l.head more hname
  · rw [hafter] at h
    obtain ⟨rfl, -⟩ := List.cons.inj (Option.some.inj h)
    obtain rfl | rfl := hname <;> rfl
  · exact head_not_whiteSpace (hafter d x h)

theorem text_ne_uid {l : ContentLine} {u i d : Char} (h : l.text = [u, i, d]) :
    lower [u, i, d] ≠ ['u', 'i', 'd'] := by
  obtain ⟨c, more, hname, htext, -, -⟩ := text_split l
  intro huid
  have hmem : c.toLower ∈ ['u', 'i', 'd'] := by
    rw [← huid, ← h, htext]
    exact List.mem_map_of_mem (by simp)
  obtain rfl | rfl := hname
  · exact absurd hmem (by decide)
  · exact absurd hmem (by decide)

theorem uidText_of_after {s x : List Char} {c : Char} (h : afterUid s = some (c :: x)) :
    uidText s = if (c = ':' ∨ whiteSpace c = true) ∧ x.takeWhile (fun d => !isBreak d) ≠ [] then
      some (x.takeWhile fun d => !isBreak d) else none := by
  rw [uidText, h]

theorem uidText_cut (u i d : Char) (f : Fold) {after : Folding} (hplain : ∀ c ∈ after.plain, isBreak c = false)
    (hrest : AtEnd rest) :
    uidText (u :: i :: d :: (f.chars ++ (after.folded ++ rest))) =
      if lower [u, i, d] = ['u', 'i', 'd'] ∧ f.lineEnd = .lf then some (f.blank :: after.firstPiece.1) else none := by
  by_cases huid : lower [u, i, d] = ['u', 'i', 'd']
  · have hafter : afterUid (u :: i :: d :: (f.chars ++ (after.folded ++ rest))) =
        some (f.chars ++ (after.folded ++ rest)) := by
      rw [afterUid_long, if_pos huid]
    obtain ⟨lineEnd, tab⟩ := f
    cases lineEnd with
    | crlf =>
      have hread : ('\n' :: ((if tab then '\t' else ' ') :: (after.folded ++ rest))).takeWhile
          (fun d => !isBreak d) = [] := rfl
      have hcut := uidText_of_after (s := u :: i :: d :: ((Fold.mk .crlf tab).chars ++ (after.folded ++ rest))) hafter
      rw [hcut, if_neg (fun h => h.2 hread), if_neg]
      rintro ⟨-, ⟨⟩⟩
    | lf =>
      have hwhite : whiteSpace '\n' = true := rfl
      have hpiece : ∀ c ∈ (if tab then '\t' else ' ') :: after.firstPiece.1, isBreak c = false := by
        rw [List.forall_mem_cons]
        constructor
        · cases tab <;> rfl
        · exact fun c hc => hplain c ((firstPiece_begins after).subset hc)
      have hread := toBreak hpiece (behind_atEnd after hrest)
      rw [List.cons_append, ← List.append_assoc, ← folded_pieces] at hread
      have hlf : afterUid (u :: i :: d :: ((Fold.mk .lf tab).chars ++ (after.folded ++ rest))) =
          some ('\n' :: (if tab then '\t' else ' ') :: (after.folded ++ rest)) := hafter
      rw [uidText_of_after hlf, hread]
      exact (if_pos ⟨.inr hwhite, List.cons_ne_nil _ _⟩).trans (if_pos ⟨huid, rfl⟩).symm
  · have hafter : afterUid (u :: i :: d :: (f.chars ++ (after.folded ++ rest))) = none := by
      rw [afterUid_long, if_neg huid]
    rw [uidText, hafter, if_neg (fun h => huid h.1)]

theorem plain_pieces {t : Folding} {f : Fold} {after : Folding} (h : t.firstPiece.2 = some (f, after)) :
    t.plain = t.firstPiece.1 ++ after.plain := by
  induction t with
  | nil => cases h
  | cons e t ih =>
    obtain ⟨g, c⟩ := e
    cases g with
    | some g =>
      obtain ⟨-, rfl⟩ := Prod.mk.inj (Option.some.inj h)
      rfl
    | none => exact congrArg (c :: ·) (ih h)

theorem uidText_folded (l : FoldedLine) (hrest : AtEnd rest) : uidText (l.folding.folded ++ rest) = l.shown := by
  have hplain : ∀ c ∈ l.folding.plain, isBreak c = false := folding_plain l
  have hbegins := firstPiece_begins l.folding
  have hbehind := behind_atEnd l.folding hrest
  have hfolded := folded_pieces l.folding
  rw [FoldedLine.shown]
  split
  · rename_i u i d x text next hpieces
    rw [hpieces] at hfolded hbegins
    rw [hfolded, List.append_assoc]
    by_cases huid : lower [u, i, d] = ['u', 'i', 'd']
    · have hafter : afterUid (u :: i :: d :: x :: text ++ (l.folding.behind ++ rest)) =
          some (x :: (text ++ (l.folding.behind ++ rest))) := by
        rw [List.cons_append, List.cons_append, List.cons_append, List.cons_append, afterUid_long, if_pos huid]
      have htext : ∀ c ∈ text, isBreak c = false := fun c hc => hplain c (hbegins.subset (by simp [hc]))
      have hwhite : whiteSpace x = false := by
        obtain ⟨more, hmore⟩ := hbegins
        apply fourth_char (l := l.line) (x := text ++ more)
        rw [← l.plain, ← hmore, List.cons_append, List.cons_append, List.cons_append, List.cons_append,
          afterUid_long, if_pos huid]
      rw [uidText_of_after hafter, toBreak htext hbehind]
      simp [hwhite, huid]
    · have hafter : afterUid (u :: i :: d :: x :: text ++ (l.folding.behind ++ rest)) = none := by
        rw [List.cons_append, List.cons_append, List.cons_append, List.cons_append, afterUid_long, if_neg huid]
      rw [uidText, hafter, if_neg (fun h => huid h.1)]
  · rename_i u i d f after hpieces
    have hafter : ∀ c ∈ after.plain, isBreak c = false := by
      intro c hc
      apply hplain
      rw [plain_pieces (congrArg Prod.snd hpieces)]
      exact List.mem_append_right _ hc
    rw [hfolded, Folding.behind, hpieces, List.append_assoc, List.append_assoc]
    exact uidText_cut u i d f hafter hrest
  · rename_i hfirst hsecond
    have hnone : afterUid (l.folding.folded ++ rest) = none := by
      rw [hfolded, List.append_assoc]
      match hpieces : l.folding.firstPiece with
      | ([], _) | ([_], _) | ([_, _], _) => exact afterUid_short (by simp) (atEnd_lower hbehind)
      | ([u, i, d], none) =>
        have hwhole := firstPiece_whole (congrArg Prod.snd hpieces)
        rw [l.plain, hpieces] at hwhole
        rw [List.cons_append, List.cons_append, List.singleton_append, afterUid_long, if_neg (text_ne_uid hwhole.symm)]
      | ([u, i, d], some (f, after)) => exact absurd hpieces (hsecond u i d f after)
      | (u :: i :: d :: x :: text, next) => exact absurd hpieces (hfirst u i d x text next)
    rw [uidText, hnone]

end Folded

section Bodies

variable {b : Body} {rest : List Char}

theorem present_none {text : Option (List Char)} : present text = none ↔ ∀ v, text = some v → trim v = [] := by
  cases text with
  | none => simp [present]
  | some v => simp [present, Option.filter_eq_none_iff]

theorem present_some {text : Option (List Char)} {uid : List Char} :
    present text = some uid ↔ ∃ v, text = some v ∧ trim v = uid ∧ uid ≠ [] := by
  cases text with
  | none => simp [present]
  | some v => simp [present, Option.filter_eq_some_iff]

theorem present_eq_map (text : Option (List Char)) : (text.map trim).filter (· ≠ []) = present text := rfl

theorem pattern_lf {s : List Char} : afterUid ('\n' :: s) = none := by
  rw [afterUid, if_neg]
  simp [lower]

theorem extractUid_text (b : Body) :
    extractUid b.text = present (b.all.findSome? fun l => if l.line.isUid then some l.line.behindColon else none) := by
  rw [extractUid, dropFolds_text]
  apply congrArg present
  apply firstMatch_render b rfl
  · intro l hl rest hrest
    rw [line_starts (fun c => text_line), uidValue_line hrest]
  · intro n rest
    apply lineEnd_starts
    intro rest
    rw [uidValue, pattern_lf]

theorem firstUid_shown {f v : FoldedLine → List Char} (hshows : ∀ l, Shows l.line (f l) (v l))
    (hone : ∀ l, ∀ c ∈ f l, isTerminator c = false) :
    firstMatch bareUidValue (b.render f fun _ => ['\n']) =
      b.all.findSome? fun l => if l.line.isBareUid then some (v l) else none := by
  apply firstMatch_render b rfl
  · intro l hl rest hrest
    rw [line_starts (hone l), bareUidValue_shown (hshows l) (hone l) hrest]
  · intro n rest
    have hlf : ∀ rest, bareUidValue ('\n' :: rest) = none := by
      intro rest
      rw [bareUidValue, pattern_lf]
    exact lineEnd_starts hlf .lf rest

theorem firstUid_text (b : Body) :
    firstUid b.text = present (b.all.findSome? fun l => if l.line.isBareUid then some l.line.value else none) := by
  rw [firstUid, crlfToLf_text, firstUid_shown (fun l => shows_text l.line) fun l c => text_line]

theorem tight_line (l : FoldedLine) : ∀ c ∈ l.folding.tight, c ∈ l.line.text := by
  rw [← l.plain]
  exact fun c => mem_tightFrom

theorem firstUid_tight (b : Body) :
    firstUid (unfoldLines b.text) =
      present (b.all.findSome? fun l => if l.line.isBareUid then some l.tightValue else none) := by
  have hplain : ∀ l : FoldedLine, ∀ c ∈ l.folding.tight, isBreak c = false := fun l c hc =>
    text_break (tight_line l c hc)
  rw [firstUid, unfoldLines_text, crlfToLf_unfolded b hplain tight_head,
    firstUid_shown shows_tight fun l c hc => text_line (tight_line l c hc)]

theorem caldav_text (b : Body) :
    Caldav.listedUid b.text = present (b.all.findSome? fun l =>
      if l.line.isBareUid ∧ l.tightValue ≠ [] then some l.tightValue else none) := by
  rw [Caldav.listedUid, Caldav.extractUidFromIcalendar, present_eq_map, unfoldLines_text]
  apply congrArg present
  apply firstMatch_render b rfl
  · intro l hl rest hrest
    have hone : ∀ c ∈ l.folding.tight, isTerminator c = false := fun c hc => text_line (tight_line l c hc)
    have hstart : (l.folding.tight ++ rest).dropWhile isBlank = l.folding.tight ++ rest := by
      obtain ⟨c, more, hmore⟩ := List.exists_cons_of_ne_nil (tight_head l).2
      have hc := (tight_head l).1 c (by rw [hmore]; rfl)
      rw [hmore, List.cons_append, List.dropWhile_cons_of_neg (by simp [hc.1])]
    rw [line_starts hone, hstart,
      uidText_shown (shows_tight l) (fun c hc => text_break (tight_line l c hc)) hrest]
  · intro n rest
    apply lineEnd_starts
    intro rest
    rw [List.dropWhile_cons_of_neg (by decide), uidText, pattern_lf]

theorem startsAfter_folded {t : Folding} (h : ∀ c ∈ t.plain, isTerminator c = false) (rest : List Char) :
    (startsAfter (t.folded ++ rest)).findSome? uidText = (startsAfter rest).findSome? uidText := by
  have hlf : ∀ rest, uidText ('\n' :: rest) = none := by
    intro rest
    rw [uidText, pattern_lf]
  induction t with
  | nil => rfl
  | cons e t ih =>
    obtain ⟨f, c⟩ := e
    rw [plain_cons, List.forall_mem_cons] at h
    have hplain : startsAfter (c :: (Folding.folded t ++ rest)) = startsAfter (Folding.folded t ++ rest) := by
      rw [startsAfter, h.1, if_neg Bool.false_ne_true]
    cases f with
    | none => rw [folded_none, List.cons_append, hplain, ih h.2]
    | some f =>
      have hchars : Folding.folded ((some f, c) :: t) ++ rest =
          f.lineEnd.chars ++ (f.blank :: c :: (Folding.folded t ++ rest)) := by
        simp [Fold.chars, Fold.blank]
      have hblank : uidText (f.blank :: c :: (Folding.folded t ++ rest)) = none := by
        have hafter : afterUid (f.blank :: c :: (Folding.folded t ++ rest)) = none := by
          have hfirst : f.blank.toLower ≠ 'u' := by
            rw [Fold.blank]
            cases f.tab <;> decide
          rw [afterUid, if_neg]
          simp [lower, hfirst]
        rw [uidText, hafter]
      have hnext : startsAfter (f.blank :: c :: (Folding.folded t ++ rest)) =
          startsAfter (c :: (Folding.folded t ++ rest)) := by
        rw [startsAfter, Fold.blank]
        cases f.tab <;> rfl
      rw [hchars, (lineEnd_starts hlf f.lineEnd _).2, findSome_starts, hblank, Option.none_or, hnext, hplain, ih h.2]

theorem carddav_text (b : Body) :
    Carddav.listedUid b.text = present (b.all.findSome? FoldedLine.shown) := by
  rw [Carddav.listedUid, Carddav.extractUidFromVcard, present_eq_map]
  apply congrArg present
  apply firstMatch_render b rfl
  · intro l hl rest hrest
    have hone : ∀ c ∈ l.folding.plain, isTerminator c = false := by
      rw [l.plain]
      exact fun c => text_line
    rw [findSome_starts, uidText_folded l hrest, startsAfter_folded hone]
  · intro n rest
    apply lineEnd_starts
    intro rest
    rw [uidText, pattern_lf]

theorem findSome_if {P : FoldedLine → Prop} [DecidablePred P] (v : FoldedLine → List Char) (ls : List FoldedLine) :
    (ls.findSome? fun l => if P l then some (v l) else none) = (ls.find? fun l => P l).map v := by
  induction ls with
  | nil => rfl
  | cons l ls ih =>
    rw [List.findSome?_cons, List.find?_cons]
    by_cases h : P l
    · simp [h]
    · simp [h, ih]

end Bodies

section Agreement

/-- The first UID line, behind its first colon, and the first one without parameters carry this UID. -/
structure Body.Carries (b : Body) (uid : List Char) : Prop where
  ne_nil : uid ≠ []
  first : ∃ l, b.all.find? (·.line.isUid) = some l ∧ trim l.line.behindColon = uid
  bare : ∃ l, b.all.find? (·.line.isBareUid) = some l ∧ trim l.line.value = uid

/-- No UID line has a value, and no parameter of the first holds a colon. -/
structure Body.Silent (b : Body) : Prop where
  values : ∀ l ∈ b.all, l.line.isUidProperty = true → trim l.line.value = []
  colon : ∀ l, b.all.find? (·.line.isUid) = some l → ':' ∉ l.line.paramChars

/-- Every reader has the UID that the source lists, and no line with a valid one is passed over. -/
structure SameUid (b : Body) (listed : Option (List Char)) (handed : List Char) : Prop where
  reindexed : listed = extractUid b.text
  verified : listed = firstUid b.text
  handed : listed = firstUid handed
  kept : (∃ l ∈ b.all, l.line.isUidProperty = true ∧ trim l.line.value ≠ []) → listed ≠ none

variable {b : Body} {uid : List Char}

theorem readers_lines (b : Body) :
    extractUid b.text = present ((b.all.find? (·.line.isUid)).map (·.line.behindColon)) ∧
      firstUid b.text = present ((b.all.find? (·.line.isBareUid)).map (·.line.value)) ∧
      firstUid (unfoldLines b.text) = present ((b.all.find? (·.line.isBareUid)).map FoldedLine.tightValue) := by
  rw [extractUid_text, firstUid_text, firstUid_tight, findSome_if, findSome_if, findSome_if]
  simp only [Bool.decide_eq_true, and_self]

theorem caldav_lines (b : Body) : Caldav.listedUid b.text =
    present ((b.all.find? fun l => l.line.isBareUid && decide (l.tightValue ≠ [])).map FoldedLine.tightValue) := by
  rw [caldav_text, findSome_if]
  simp only [Bool.decide_and, Bool.decide_eq_true]

theorem present_found {P : FoldedLine → Bool} {v : FoldedLine → List Char} {ls : List FoldedLine} :
    present ((ls.find? P).map v) = some uid ↔ uid ≠ [] ∧ ∃ l, ls.find? P = some l ∧ trim (v l) = uid := by
  rw [present_some]
  constructor
  · rintro ⟨text, htext, htrim, hne⟩
    obtain ⟨l, hl, rfl⟩ := Option.map_eq_some_iff.mp htext
    exact ⟨hne, l, hl, htrim⟩
  · rintro ⟨hne, l, hl, htrim⟩
    exact ⟨v l, by rw [hl, Option.map_some], htrim, hne⟩

theorem present_missed {P : FoldedLine → Bool} {v : FoldedLine → List Char} {ls : List FoldedLine} :
    present ((ls.find? P).map v) = none ↔ ∀ l, ls.find? P = some l → trim (v l) = [] := by
  rw [present_none]
  constructor
  · intro h l hl
    exact h (v l) (by rw [hl, Option.map_some])
  · rintro h text htext
    obtain ⟨l, hl, rfl⟩ := Option.map_eq_some_iff.mp htext
    exact h l hl

theorem value_drop (l : ContentLine) : l.text.drop (l.text.length - l.value.length) = l.value := by
  have htext : l.text = (l.head ++ (l.paramChars ++ [':'])) ++ l.value := by
    rw [ContentLine.text]
    simp
  rw [htext, List.length_append, Nat.add_sub_cancel, List.drop_left]

theorem tightValue_plain (l : FoldedLine) :
    Folding.plain (l.folding.drop (l.line.text.length - l.line.value.length)) = l.line.value := by
  rw [Folding.plain, List.map_drop, ← Folding.plain, l.plain, value_drop]

theorem tightValue_sub {l : FoldedLine} {c : Char} (h : c ∈ l.tightValue) : c ∈ l.line.value := by
  rw [← tightValue_plain]
  exact mem_tightFrom h

theorem tightValue_ne_nil {l : FoldedLine} (h : trim l.line.value ≠ []) : l.tightValue ≠ [] := by
  intro hnil
  apply h
  rw [trim_eq_nil]
  intro c hc
  by_contra hwhite
  have hblank : isBlank c = false := by
    rw [Bool.eq_false_iff]
    intro hblank
    simp only [isBlank, Bool.or_eq_true, beq_iff_eq] at hblank
    obtain rfl | rfl := hblank
    · exact hwhite rfl
    · exact hwhite rfl
  have hmem : c ∈ l.tightValue := by
    apply mem_tightFrom_of_plain _ hblank
    rwa [tightValue_plain]
  rw [hnil] at hmem
  cases hmem

theorem trim_tightValue {l : FoldedLine} (h : trim l.line.value = []) : trim l.tightValue = [] := by
  rw [trim_eq_nil] at h ⊢
  exact fun c hc => h c (tightValue_sub hc)

theorem behindColon_colon {l : ContentLine} (h : ':' ∈ l.paramChars) : trim l.behindColon ≠ [] := by
  obtain ⟨before, after, hsplit, hno⟩ := List.eq_append_cons_of_mem h
  have hbefore : ∀ c ∈ before, (c != ':') = true := by
    intro c hc
    rw [bne_iff_ne]
    rintro rfl
    exact hno hc
  have hbehind : l.behindColon = after ++ ':' :: l.value := by
    rw [ContentLine.behindColon, hsplit, List.append_assoc, List.dropWhile_append_of_pos hbefore, List.cons_append,
      List.dropWhile_cons_of_neg (by decide), List.tail_cons]
  intro hblank
  rw [trim_eq_nil] at hblank
  have hcolon := hblank ':' (by rw [hbehind]; simp)
  cases hcolon

theorem behindColon_value {l : ContentLine} (h : ':' ∉ l.paramChars) : l.behindColon = l.value := by
  have hparams : ∀ c ∈ l.paramChars, (c != ':') = true := by
    intro c hc
    rw [bne_iff_ne]
    rintro rfl
    exact h hc
  rw [ContentLine.behindColon, List.dropWhile_append_of_pos hparams, List.dropWhile_cons_of_neg (by decide),
    List.tail_cons]

theorem isUidProperty_of_isUid {l : ContentLine} (h : l.isUid = true) : l.isUidProperty = true := by
  rw [ContentLine.isUid, Bool.and_eq_true] at h
  exact h.2

theorem isUidProperty_of_isBareUid {l : ContentLine} (h : l.isBareUid = true) : l.isUidProperty = true :=
  isUidProperty_of_isUid (isBareUid_iff.mp h).1

theorem found {P : FoldedLine → Bool} {l : FoldedLine} (h : b.all.find? P = some l) : l ∈ b.all ∧ P l = true :=
  ⟨List.mem_of_find?_eq_some h, List.find?_some h⟩

theorem carries_iff : b.Carries uid ↔ extractUid b.text = some uid ∧ firstUid b.text = some uid := by
  rw [(readers_lines b).1, (readers_lines b).2.1, present_found, present_found]
  constructor
  · rintro ⟨hne, hfirst, hbare⟩
    exact ⟨⟨hne, hfirst⟩, hne, hbare⟩
  · rintro ⟨⟨hne, hfirst⟩, -, hbare⟩
    exact ⟨hne, hfirst, hbare⟩

theorem silent_iff : b.Silent ↔ (∀ l ∈ b.all, l.line.isUidProperty = true → trim l.line.value = []) ∧
    extractUid b.text = none ∧ firstUid b.text = none := by
  rw [(readers_lines b).1, (readers_lines b).2.1, present_missed, present_missed]
  constructor
  · rintro ⟨hvalues, hcolon⟩
    refine ⟨hvalues, ?_, ?_⟩
    · intro l hl
      rw [behindColon_value (hcolon l hl)]
      obtain ⟨hmem, huid⟩ := found hl
      exact hvalues l hmem (isUidProperty_of_isUid huid)
    · intro l hl
      obtain ⟨hmem, hbare⟩ := found hl
      exact hvalues l hmem (isUidProperty_of_isBareUid hbare)
  · rintro ⟨hvalues, hfirst, -⟩
    refine ⟨hvalues, ?_⟩
    intro l hl hcolon
    exact behindColon_colon hcolon (hfirst l hl)

theorem kept_iff {listed : Option (List Char)} :
    ((∃ l ∈ b.all, l.line.isUidProperty = true ∧ trim l.line.value ≠ []) → listed ≠ none) ↔
      (listed = none → ∀ l ∈ b.all, l.line.isUidProperty = true → trim l.line.value = []) := by
  constructor
  · intro h hnone l hl huid
    by_contra hvalue
    exact h ⟨l, hl, huid, hvalue⟩ hnone
  · rintro h ⟨l, hl, huid, hvalue⟩ hnone
    exact hvalue (h hnone l hl huid)

theorem sameUid_iff {listed : Option (List Char)} {handed : List Char} :
    SameUid b listed handed ↔ (∃ uid, b.Carries uid ∧ listed = some uid ∧ firstUid handed = some uid) ∨
      b.Silent ∧ listed = none ∧ firstUid handed = none := by
  constructor
  · rintro ⟨hfirst, hbare, hhanded, hkept⟩
    rw [kept_iff] at hkept
    cases hlisted : listed with
    | none =>
      rw [hlisted] at hfirst hbare hhanded
      exact .inr ⟨silent_iff.mpr ⟨hkept hlisted, hfirst.symm, hbare.symm⟩, rfl, hhanded.symm⟩
    | some uid =>
      rw [hlisted] at hfirst hbare hhanded
      exact .inl ⟨uid, carries_iff.mpr ⟨hfirst.symm, hbare.symm⟩, rfl, hhanded.symm⟩
  · rintro (⟨uid, hcarries, hlisted, hhanded⟩ | ⟨hsilent, hlisted, hhanded⟩)
    · obtain ⟨hfirst, hbare⟩ := carries_iff.mp hcarries
      refine ⟨?_, ?_, ?_, kept_iff.mpr ?_⟩
      · rw [hlisted, hfirst]
      · rw [hlisted, hbare]
      · rw [hlisted, hhanded]
      · intro hnone
        rw [hlisted] at hnone
        cases hnone
    · obtain ⟨hvalues, hfirst, hbare⟩ := silent_iff.mp hsilent
      refine ⟨?_, ?_, ?_, kept_iff.mpr fun _ => hvalues⟩
      · rw [hlisted, hfirst]
      · rw [hlisted, hbare]
      · rw [hlisted, hhanded]

theorem caldav_carried (h : b.Carries uid) :
    Caldav.listedUid b.text = some uid ∧ firstUid (unfoldLines b.text) = some uid ↔
      ∀ l, b.all.find? (·.line.isBareUid) = some l → trim l.tightValue = uid := by
  obtain ⟨hne, -, l, hbare, hvalue⟩ := h
  have htight : l.tightValue ≠ [] := by
    apply tightValue_ne_nil
    rwa [hvalue]
  have hkept : b.all.find? (fun l => l.line.isBareUid && decide (l.tightValue ≠ [])) = some l := by
    obtain ⟨huid, before, after, hsplit, hbefore⟩ := List.find?_eq_some_iff_append.mp hbare
    refine List.find?_eq_some_iff_append.mpr ⟨by simp [huid, htight], before, after, hsplit, ?_⟩
    intro l' hl'
    have hno := hbefore l' hl'
    simp only [Bool.not_eq_true'] at hno
    simp [hno]
  rw [caldav_lines, (readers_lines b).2.2, present_found, present_found]
  constructor
  · rintro ⟨-, -, l', hl', htrim⟩ l'' hl''
    rw [hl'] at hl''
    rwa [← Option.some.inj hl'']
  · intro hall
    exact ⟨⟨hne, l, hkept, hall l hbare⟩, hne, l, hbare, hall l hbare⟩

theorem caldav_silent (h : b.Silent) :
    Caldav.listedUid b.text = none ∧ firstUid (unfoldLines b.text) = none := by
  rw [caldav_lines, (readers_lines b).2.2, present_missed, present_missed]
  constructor
  · intro l hl
    obtain ⟨hmem, huid⟩ := found hl
    rw [Bool.and_eq_true] at huid
    exact trim_tightValue (h.values l hmem (isUidProperty_of_isBareUid huid.1))
  · intro l hl
    obtain ⟨hmem, huid⟩ := found hl
    exact trim_tightValue (h.values l hmem (isUidProperty_of_isBareUid huid))

end Agreement

namespace Sample

def uidName : Name := ⟨['U', 'I', 'D'], by simp, List.all_eq_true.mp (by decide)⟩

def valueParam : Param :=
  ⟨⟨['V', 'A', 'L', 'U', 'E'], by simp, List.all_eq_true.mp (by decide)⟩,
    [.plain ['T', 'E', 'X', 'T'] (by simp [isTerminator])]⟩

/-- `UID;VALUE=TEXT:a` -/
def uidWithParam : Body where
  lines := [
    { line := ⟨none, uidName, [valueParam], ['a'], by simp [isTerminator]⟩
      folding := "UID;VALUE=TEXT:a".toList.map fun c => (none, c)
      plain := by decide
      begins := by rintro e ⟨⟩; rfl
      lineEnd := .crlf }]
  last := none

/-- `UID:ab` and a folded `c` -/
def foldedUid : Body where
  lines := [
    { line := ⟨none, uidName, [], ['a', 'b', 'c'], by simp [isTerminator]⟩
      folding := ("UID:ab".toList.map fun c => (none, c)) ++ [(some ⟨.crlf, false⟩, 'c')]
      plain := by decide
      begins := by rintro e ⟨⟩; rfl
      lineEnd := .crlf }]
  last := none

end Sample

end OpenMigrate.Dav
