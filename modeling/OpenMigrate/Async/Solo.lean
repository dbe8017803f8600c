import OpenMigrate.Async.RelyGuarantee

namespace OpenMigrate.Async

open Prog

variable {σ C : Type} {R : C → Type} {E I A α β : Type}

/-- A program run to its end on its own: before each of its commands the surroundings act. Where the turns run out first,
it has no end. -/
def play (m : Machine σ C R E I A) : Prog C R E α → List (List A × I) → σ →
    Option (Except E α × List (List A × I) × σ)
  | .ret a, turns, s => some (.ok a, turns, s)
  | .fail e, turns, s => some (.error e, turns, s)
  | .call _ _, [], _ => none
  | .call c k, (acts, i) :: turns, s =>
    let next := m.exec c i (acts.foldl (fun t a => m.act a t) s)
    play m (k next.1) turns next.2

/-- One program of a sequence, for the argument it was given. -/
structure Played (σ E α β : Type) where
  arg : β
  before : σ
  result : Except E α
  after : σ

/-- Programs run one after the other, whatever became of the ones before. -/
def playAll (m : Machine σ C R E I A) (f : β → Prog C R E α) : List β → List (List A × I) → σ → List (Played σ E α β)
  | [], _, _ => []
  | b :: bs, turns, s =>
    match play m (f b) turns s with
    | none => []
    | some (result, rest, after) => ⟨b, s, result, after⟩ :: playAll m f bs rest after

variable {m : Machine σ C R E I A} {Γ : Rules σ C I}

theorem rely_acts (hact : ∀ a s, Γ.rely s (m.act a s)) (acts : List A) (s : σ) :
    Γ.rely s (acts.foldl (fun t a => m.act a t) s) := by
  induction acts generalizing s with
  | nil => exact Γ.refl s
  | cons a acts ih => exact Γ.trans (hact a s) (ih (m.act a s))

theorem play_wp (hact : ∀ a s, Γ.rely s (m.act a s)) (hassume : ∀ c i s, Γ.assume c i s) {p : Prog C R E α}
    {Q : Except E α → σ → Prop} {s s' : σ} {turns rest : List (List A × I)} {r : Except E α}
    (h : wp (callSpec m Γ) p Q s) (hplay : play m p turns s = some (r, rest, s')) : Q r s' := by
  induction p generalizing turns s with
  | ret a =>
    obtain ⟨rfl, -, rfl⟩ := Option.some.inj hplay
    exact h
  | fail e =>
    obtain ⟨rfl, -, rfl⟩ := Option.some.inj hplay
    exact h
  | call c k ih =>
    cases turns with
    | nil => cases hplay
    | cons turn turns =>
      obtain ⟨acts, i⟩ := turn
      exact ih _ (h _ (rely_acts hact acts s) i (hassume c i _)).2 hplay

theorem playAll_keeps (hact : ∀ a s, Γ.rely s (m.act a s)) (hassume : ∀ c i s, Γ.assume c i s) {f : β → Prog C R E α}
    {P : σ → Prop} {L : σ → σ → Prop} {Q : β → σ → Except E α → σ → Prop} (hrefl : ∀ s, L s s)
    (htrans : ∀ s t u, L s t → L t u → L s u)
    {bs : List β} (hf : ∀ b ∈ bs, ∀ s, P s → wp (callSpec m Γ) (f b) (fun r t => P t ∧ L s t ∧ Q b s r t) s)
    (turns : List (List A × I)) {s : σ} (hs : P s) :
    (∀ e ∈ playAll m f bs turns s, P e.before ∧ L s e.before ∧ L e.before e.after ∧ Q e.arg e.before e.result e.after) ∧
      (playAll m f bs turns s).Pairwise fun e e' => L e.after e'.before := by
  induction bs generalizing turns s with
  | nil => exact ⟨nofun, .nil⟩
  | cons b bs ih =>
    cases hplay : play m (f b) turns s with
    | none =>
      simp only [playAll, hplay]
      exact ⟨nofun, .nil⟩
    | some played =>
      obtain ⟨r, rest, t⟩ := played
      obtain ⟨ht, hle, hQ⟩ := play_wp hact hassume (hf b List.mem_cons_self s hs) hplay
      obtain ⟨hall, hpairs⟩ := ih (fun b' hb' => hf b' (List.mem_cons_of_mem b hb')) rest ht
      simp only [playAll, hplay]
      constructor
      · intro e he
        obtain rfl | he := List.mem_cons.mp he
        · exact ⟨hs, hrefl s, hle, hQ⟩
        · obtain ⟨hbefore, hlater, hown, hQe⟩ := hall e he
          exact ⟨hbefore, htrans _ _ _ hle hlater, hown, hQe⟩
      · exact List.pairwise_cons.mpr ⟨fun e he => (hall e he).2.1, hpairs⟩

end OpenMigrate.Async
