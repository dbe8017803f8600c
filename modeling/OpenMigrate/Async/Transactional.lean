import OpenMigrate.Async.Prog

namespace OpenMigrate.Async

variable {σ ι C E α : Type} {R : C → Type}

/-- One command of a program inside a transaction, which is lost (`none`) once a command has been refused. A command
that raises may have been carried out all the same, or may never have been sent. -/
inductive TransactionStep (apply : (c : C) → σ → Except E (σ × R c)) :
    Prog C R E α × Option σ → Prog C R E α × Option σ → Prop
  | carriedOut {c : C} {k : Except E (R c) → Prog C R E α} {s s' : σ} {a : R c} (h : apply c s = .ok (s', a)) :
    TransactionStep apply (.call c k, some s) (k (.ok a), some s')
  | unheard {c : C} {k : Except E (R c) → Prog C R E α} {s s' : σ} {a : R c} (h : apply c s = .ok (s', a)) (e : E) :
    TransactionStep apply (.call c k, some s) (k (.error e), some s')
  | unsent {c : C} {k : Except E (R c) → Prog C R E α} (s : Option σ) (e : E) :
    TransactionStep apply (.call c k, s) (k (.error e), s)
  | refused {c : C} {k : Except E (R c) → Prog C R E α} (s : Option σ) (e : E) :
    TransactionStep apply (.call c k, s) (k (.error e), none)

/-- What a program can come to inside a transaction. -/
def TransactionRun (apply : (c : C) → σ → Except E (σ × R c)) :
    Prog C R E α × Option σ → Prog C R E α × Option σ → Prop :=
  Relation.ReflTransGen (TransactionStep apply)

/-- One after another, each from the state that the one before it has left. -/
inductive Serial (runs : ι → σ → σ → Prop) (s : σ) : List ι → σ → Prop
  | nil : Serial runs s [] s
  | snoc {js : List ι} {t u : σ} {j : ι} (h : Serial runs s js t) (hj : runs j t u) : Serial runs s (js ++ [j]) u

end OpenMigrate.Async
