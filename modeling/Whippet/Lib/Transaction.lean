import Whippet.Lib.Checked

/-! Programs of database statements, any of which may fail, and the transactions that run them. -/
namespace Whippet.Lib

variable {σ ε α β τ υ : Type}

/-- Which calls to the database fail, by their number. -/
abbrev Faults (ε : Type) := ℕ → Option ε

/-- A program of statements on a database. It counts its statements, and stops at the first that fails. -/
def Statements (σ ε α : Type) := Faults ε → ℕ → σ → Except ε (α × ℕ × σ)

namespace Statements

instance : Monad (Statements σ ε) where
  pure a _ n s := .ok (a, n, s)
  bind p q faults n s :=
    match p faults n s with
    | .error e => .error e
    | .ok (a, n, s) => q a faults n s

def stmt (f : σ → α × σ) : Statements σ ε α := fun faults n s =>
  match faults n with
  | some e => .error e
  | none => .ok ((f s).1, n + 1, (f s).2)

def query (f : σ → α) : Statements σ ε α := stmt fun s => (f s, s)

def exec (f : σ → σ) : Statements σ ε Unit := stmt fun s => ((), f s)

def check (x : Except ε α) : Statements σ ε α := fun _ n s => x.map fun a => (a, n, s)

def onFst (p : Statements σ ε α) : Statements (σ × τ) ε α := fun faults n s =>
  (p faults n s.1).map fun r => (r.1, r.2.1, r.2.2, s.2)

end Statements

/-- The first call, which opens the transaction. -/
def beginTx (faults : Faults ε) (n : ℕ) : Except ε ℕ :=
  match faults n with
  | some e => .error e
  | none => .ok (n + 1)

/-- The last call. A failed commit leaves the database before the transaction. -/
def commitTx (faults : Faults ε) (n : ℕ) : Except ε PUnit :=
  match faults n with
  | some e => .error e
  | none => .ok ⟨⟩

/-- A program in one transaction, from call `n` on. Who calls it keeps the old database if it fails. -/
def transact (p : Statements σ ε α) (faults : Faults ε) (n : ℕ) (s : σ) : Except ε (α × σ) := do
  let n ← beginTx faults n
  let (a, n, s) ← p faults n s
  commitTx faults n
  .ok (a, s)

/-- A run of a program under faults follows a computation that knows none: it ends with a fault, or as the
computation does. `out` says how the outcome of the program is read. -/
inductive Follows (faults : Faults ε) (out : α → σ → τ) : Except ε (α × ℕ × σ) → Except ε τ → Prop
  | fault {k : ℕ} {e : ε} {t : Except ε τ} (h : faults k = some e) : Follows faults out (.error e) t
  | error (e : ε) : Follows faults out (.error e) (.error e)
  | ok (a : α) (n : ℕ) (s : σ) : Follows faults out (.ok (a, n, s)) (.ok (out a s))

namespace Follows

variable {faults : Faults ε} {out : α → σ → τ} {out' : β → σ → υ} {n : ℕ} {s : σ}

theorem pure (a : α) : Follows faults out ((Pure.pure a : Statements σ ε α) faults n s) (.ok (out a s)) :=
  .ok a n s

variable {t : Except ε τ} {q : β → Statements σ ε α}

theorem pure_bind {b : β} (h : Follows faults out (q b faults n s) t) :
    Follows faults out (((Pure.pure b : Statements σ ε β) >>= q) faults n s) t :=
  h

theorem stmt_bind {f : σ → β × σ} (h : ∀ n, Follows faults out (q (f s).1 faults n (f s).2) t) :
    Follows faults out ((Statements.stmt f >>= q) faults n s) t := by
  change Follows faults out (match Statements.stmt f faults n s with
    | .error e => .error e
    | .ok (a, n, s) => q a faults n s) t
  unfold Statements.stmt
  cases hf : faults n with
  | some e => exact .fault hf
  | none => exact h (n + 1)

theorem query_bind {f : σ → β} (h : ∀ n, Follows faults out (q (f s) faults n s) t) :
    Follows faults out ((Statements.query f >>= q) faults n s) t :=
  stmt_bind h

theorem exec_bind {f : σ → σ} {q : Unit → Statements σ ε α}
    (h : ∀ n, Follows faults out (q () faults n (f s)) t) :
    Follows faults out ((Statements.exec f >>= q) faults n s) t :=
  stmt_bind h

theorem query {f : σ → α} : Follows faults out (Statements.query f faults n s) (.ok (out (f s) s)) := by
  unfold Statements.query Statements.stmt
  cases hf : faults n with
  | some e => exact .fault hf
  | none => exact .ok _ _ _

theorem exec {out : Unit → σ → τ} {f : σ → σ} :
    Follows faults out (Statements.exec f faults n s) (.ok (out () (f s))) := by
  unfold Statements.exec Statements.stmt
  cases hf : faults n with
  | some e => exact .fault hf
  | none => exact .ok _ _ _

variable {p : Statements σ ε α}

theorem bind {q : α → Statements σ ε β} {k : τ → Except ε υ}
    (hp : Follows faults out (p faults n s) t)
    (hq : ∀ a n s, Follows faults out' (q a faults n s) (k (out a s))) :
    Follows faults out' ((p >>= q) faults n s) (t >>= k) := by
  change Follows faults out' (match p faults n s with
    | .error e => .error e
    | .ok (a, n, s) => q a faults n s) (t >>= k)
  generalize p faults n s = r at hp ⊢
  cases hp with
  | fault h => exact .fault h
  | error e => exact .error e
  | ok a n s => exact hq a n s

theorem ok_bind {q : α → Statements σ ε β} {r : τ} {t : Except ε υ}
    (hp : Follows faults out (p faults n s) (.ok r))
    (hq : ∀ a n s, out a s = r → Follows faults out' (q a faults n s) t) :
    Follows faults out' ((p >>= q) faults n s) t := by
  change Follows faults out' (match p faults n s with
    | .error e => .error e
    | .ok (a, n, s) => q a faults n s) t
  generalize p faults n s = x at hp ⊢
  cases hp with
  | fault h => exact .fault h
  | ok a n s => exact hq a n s rfl

theorem check_bind {x : Except ε β} {k : β → Except ε τ}
    (h : ∀ b, x = .ok b → Follows faults out (q b faults n s) (k b)) :
    Follows faults out ((Statements.check x >>= q) faults n s) (x >>= k) := by
  cases x with
  | error e => exact .error e
  | ok b => exact h b rfl

theorem foldlM {γ : Type} {body : α → γ → Statements σ ε α} {g : τ → γ → Except ε τ}
    (h : ∀ a b n s, Follows faults out (body a b faults n s) (g (out a s) b)) (l : List γ) (a : α) :
    Follows faults out ((l.foldlM body a) faults n s) (l.foldlM g (out a s)) := by
  induction l generalizing a n s with
  | nil => exact .ok a n s
  | cons b l ih =>
    rw [List.foldlM_cons, List.foldlM_cons]
    exact bind (h a b n s) fun a n s => ih a

theorem foldl {γ : Type} {body : α → γ → Statements σ ε α} {g : τ → γ → τ}
    (h : ∀ a b n s, Follows faults out (body a b faults n s) (.ok (g (out a s) b))) (l : List γ) (a : α) :
    Follows faults out ((l.foldlM body a) faults n s) (.ok (l.foldl g (out a s))) := by
  have hrun := foldlM (g := fun t b => Pure.pure (g t b)) h l a (n := n) (s := s)
  rwa [List.foldlM_pure] at hrun

theorem onFst {υ : Type} (h : Follows faults out (p faults n s) t) (u : υ) :
    Follows faults (fun a (r : σ × υ) => (out a r.1, r.2)) (p.onFst faults n (s, u)) (t.map fun r => (r, u)) := by
  unfold Statements.onFst
  dsimp only
  generalize p faults n s = r at h ⊢
  cases h with
  | fault h => exact .fault h
  | error e => exact .error e
  | ok a n s => exact .ok a n (s, u)

theorem eq_ok {r : α × ℕ × σ} (h : Follows faults out (.ok r) t) : t = .ok (out r.1 r.2.2) := by
  cases h
  rfl

end Follows

theorem transact_eq_ok {p : Statements σ ε α} {faults : Faults ε} {n : ℕ} {s s' : σ} {a : α}
    (h : transact p faults n s = .ok (a, s')) : ∃ k m, p faults k s = .ok (a, m, s') := by
  simp only [transact, bind_eq_ok, Except.ok.injEq, Prod.mk.injEq] at h
  obtain ⟨k, -, ⟨a', m, s''⟩, hp, -, -, rfl, rfl⟩ := h
  exact ⟨k, m, hp⟩

theorem transact_of_follows {p : Statements σ ε α} {faults : Faults ε} {s : σ} {out : α → σ → τ} {t : τ}
    (hnone : ∀ k, faults k = none) (h : ∀ n, Follows faults out (p faults n s) (.ok t)) (n : ℕ) :
    ∃ a s', transact p faults n s = .ok (a, s') ∧ out a s' = t := by
  have hrun := h (n + 1)
  unfold transact beginTx commitTx
  simp only [hnone, ok_bind]
  generalize p faults (n + 1) s = r at hrun ⊢
  cases hrun with
  | fault hf =>
    rw [hnone] at hf
    cases hf
  | ok a m s' => exact ⟨a, s', rfl, rfl⟩

end Whippet.Lib
