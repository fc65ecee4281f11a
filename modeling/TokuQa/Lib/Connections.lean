import Mathlib.Data.List.Basic
import TokuQa.Lib.Run
import TokuQa.Lib.Threads

/-!
# Connections to one database

Every connection runs a program of statements. A plain `SELECT` reads the database as it was
committed at the first one of the transaction (`REPEATABLE READ`). A `SELECT .. FOR UPDATE` and a
statement that writes read what is committed now, with what the connection has written itself, and
lock the rows they concern until the transaction ends: who wants a row that another connection has
locked waits. A statement that refuses what it finds, and a failure at any time, roll the
transaction back and end the program.

A plain `SELECT` does not see what its own transaction has written: the programs must not read so
what they have changed.

What a connection has written is kept as its statements, and is in the database when it commits. The
rows they concern are locked, so that they do there what they did when they were executed.

A program that ends without a commit leaves its transaction open: the next one of the connection goes
on with the same snapshot.
-/

set_option autoImplicit false

namespace TokuQa.Lib

/-- A program over databases `σ`, with statements `ω` that write, row names `ρ` and what the commits
say, `ε`. -/
inductive Prog (σ ω ρ ε : Type) where
  | ret
  | rollback
  | select (next : σ → Prog σ ω ρ ε)
  | forUpdate (rows : σ → List ρ) (next : σ → Prog σ ω ρ ε)
  | write (w : ω) (next : Prog σ ω ρ ε)
  | commit (entry : ε) (next : Prog σ ω ρ ε)

/-- The rows a statement concerns, and what it makes of the database unless it refuses to. -/
structure Engine (σ ω ρ : Type) where
  rows : ω → σ → List ρ
  write : ω → σ → Option σ

structure Connection (σ ω ρ ε : Type) where
  prog : Prog σ ω ρ ε
  snapshot : Option σ
  writes : List ω
  locks : List ρ

/-- `log` is what the commits have said. -/
structure System (σ ω ρ ε : Type) (n : Nat) where
  committed : σ
  connection : Fin n → Connection σ ω ρ ε
  log : List ε

/-- `begin` gives a connection its next program. -/
inductive ConnectionEvent (τ : Type) (n : Nat) where
  | begin (i : Fin n) (program : τ)
  | go (i : Fin n)
  | fail (i : Fin n)

variable {σ ω ρ ε τ : Type} {n : Nat}

/-- Outside of a transaction. -/
def Connection.outside (prog : Prog σ ω ρ ε) : Connection σ ω ρ ε := ⟨prog, none, [], []⟩

namespace Engine

variable (E : Engine σ ω ρ)

def apply (t : σ) (w : ω) : σ := (E.write w t).getD t

def applyAll (ws : List ω) (t : σ) : σ := ws.foldl E.apply t

theorem applyAll_append (ws : List ω) (w : ω) (t : σ) :
    E.applyAll (ws ++ [w]) t = E.apply (E.applyAll ws t) w := by
  rw [applyAll, List.foldl_append]
  rfl

end Engine

namespace System

def start (t : σ) : System σ ω ρ ε n := ⟨t, fun _ => .outside .ret, []⟩

def put (s : System σ ω ρ ε n) (i : Fin n) (x : Connection σ ω ρ ε) : System σ ω ρ ε n :=
  { s with connection := Function.update s.connection i x }

/-- What the statements of a connection that write find. -/
def view (E : Engine σ ω ρ) (s : System σ ω ρ ε n) (i : Fin n) : σ :=
  E.applyAll (s.connection i).writes s.committed

/-- No other connection has locked one of the rows. -/
def Free (s : System σ ω ρ ε n) (i : Fin n) (rows : List ρ) : Prop :=
  ∀ j, j ≠ i → ∀ r ∈ rows, r ∉ (s.connection j).locks

instance [DecidableEq ρ] (s : System σ ω ρ ε n) (i : Fin n) (rows : List ρ) :
    Decidable (s.Free i rows) :=
  inferInstanceAs (Decidable (∀ j, j ≠ i → ∀ r ∈ rows, r ∉ (s.connection j).locks))

variable [DecidableEq ρ] (E : Engine σ ω ρ) (program : τ → Prog σ ω ρ ε)

def go (s : System σ ω ρ ε n) (i : Fin n) : Option (System σ ω ρ ε n) :=
  let x := s.connection i
  match x.prog with
  | .ret => none
  | .rollback => some (s.put i (.outside .ret))
  | .select next =>
    let snapshot := x.snapshot.getD s.committed
    some (s.put i { x with prog := next snapshot, snapshot := some snapshot })
  | .forUpdate rows next =>
    let found := rows (s.view E i)
    if s.Free i found then
      some (s.put i { x with prog := next (s.view E i), locks := found ++ x.locks })
    else none
  | .write w next =>
    let found := E.rows w (s.view E i)
    if s.Free i found then
      if (E.write w (s.view E i)).isSome then
        some (s.put i { x with prog := next, writes := x.writes ++ [w], locks := found ++ x.locks })
      else some (s.put i (.outside .ret))
    else none
  | .commit entry next =>
    some { s.put i (.outside next) with committed := s.view E i, log := s.log ++ [entry] }

def step (e : ConnectionEvent τ n) (s : System σ ω ρ ε n) : Option (System σ ω ρ ε n) :=
  match e with
  | .begin i p =>
    match (s.connection i).prog with
    | .ret => some (s.put i { s.connection i with prog := program p })
    | _ => none
  | .go i => s.go E i
  | .fail i =>
    match (s.connection i).prog with
    | .ret => none
    | _ => some (s.put i (.outside .ret))

end System

/-! ## The rule -/

/-- A condition on the database and the connection that goes on. -/
def Connection.FineStep (F : σ → Connection σ ω ρ ε → Prop) (e : ConnectionEvent τ n)
    (s : System σ ω ρ ε n) : Prop :=
  match e with
  | .go i => F s.committed (s.connection i)
  | _ => True

instance (F : σ → Connection σ ω ρ ε → Prop) [∀ t x, Decidable (F t x)] (e : ConnectionEvent τ n)
    (s : System σ ω ρ ε n) : Decidable (Connection.FineStep F e s) :=
  match e with
  | .go i => inferInstanceAs (Decidable (F s.committed (s.connection i)))
  | .begin _ _ => isTrue trivial
  | .fail _ => isTrue trivial

/-- What is to be shown of `P`, which holds of each connection beside the database, and of `G`,
which holds of the database and the log. -/
structure ConnectionRule (E : Engine σ ω ρ) (program : τ → Prog σ ω ρ ε)
    (F P : σ → Connection σ ω ρ ε → Prop) (G : σ → List ε → Prop) : Prop where
  begin : ∀ {t x} p, P t x → x.prog = .ret → P t { x with prog := program p }
  outside : ∀ {t}, P t (.outside .ret)
  select : ∀ {t x next}, P t x → x.prog = .select next →
    P t { x with prog := next (x.snapshot.getD t), snapshot := some (x.snapshot.getD t) }
  forUpdate : ∀ {t x rows next}, P t x → x.prog = .forUpdate rows next →
    P t { x with
      prog := next (E.applyAll x.writes t)
      locks := rows (E.applyAll x.writes t) ++ x.locks }
  write : ∀ {t x w next}, P t x → F t x → x.prog = .write w next →
    (E.write w (E.applyAll x.writes t)).isSome = true →
    P t { x with
      prog := next
      writes := x.writes ++ [w]
      locks := E.rows w (E.applyAll x.writes t) ++ x.locks }
  commit : ∀ {t x entry next log}, P t x → G t log → x.prog = .commit entry next →
    P (E.applyAll x.writes t) (.outside next) ∧ G (E.applyAll x.writes t) (log ++ [entry])
  /-- A commit beside a connection that has locked other rows. -/
  other : ∀ {t x y entry next}, P t x → P t y → x.prog = .commit entry next →
    (∀ r ∈ x.locks, r ∉ y.locks) → P (E.applyAll x.writes t) y

structure ConnectionInv (P : σ → Connection σ ω ρ ε → Prop) (G : σ → List ε → Prop)
    (s : System σ ω ρ ε n) : Prop where
  connections : ∀ i, P s.committed (s.connection i)
  /-- No row is locked by two connections. -/
  apart : ∀ i j, i ≠ j → ∀ r ∈ (s.connection i).locks, r ∉ (s.connection j).locks
  shared : G s.committed s.log

section

variable [DecidableEq ρ] {E : Engine σ ω ρ} {program : τ → Prog σ ω ρ ε}
  {F P : σ → Connection σ ω ρ ε → Prop} {G : σ → List ε → Prop} {s s' : System σ ω ρ ε n}

omit [DecidableEq ρ] in
/-- A connection moves, and locks rows that were free. -/
theorem ConnectionInv.put (h : ConnectionInv P G s) {i : Fin n} {x : Connection σ ω ρ ε}
    (hx : P s.committed x)
    (hlocks : ∀ r ∈ x.locks, r ∈ (s.connection i).locks ∨ ∀ j, j ≠ i → r ∉ (s.connection j).locks) :
    ConnectionInv P G (s.put i x) where
  connections := forall_update (P := fun _ x => P s.committed x) h.connections hx
  apart := by
    refine pairwise_update (R := fun x y : Connection σ ω ρ ε => ∀ r ∈ x.locks, r ∉ y.locks)
      (fun hxy r hr hr' => hxy r hr' hr) h.apart fun j hj r hr => ?_
    rcases hlocks r hr with hold | hfree
    · exact h.apart i j hj.symm r hold
    · exact hfree j hj
  shared := h.shared

omit [DecidableEq ρ] in
/-- A connection moves, and locks no more or the free rows it has found. -/
theorem ConnectionInv.lock (h : ConnectionInv P G s) {i : Fin n} {x : Connection σ ω ρ ε}
    {found : List ρ} (hx : P s.committed x) (hfree : s.Free i found)
    (hlocks : x.locks = found ++ (s.connection i).locks) : ConnectionInv P G (s.put i x) := by
  refine h.put hx fun r hr => ?_
  rw [hlocks] at hr
  exact (List.mem_append.mp hr).symm.imp_right fun hnew j hj => hfree j hj r hnew

omit [DecidableEq ρ] in
/-- A rollback. -/
theorem ConnectionInv.stop (hrule : ConnectionRule E program F P G) (h : ConnectionInv P G s)
    (i : Fin n) : ConnectionInv P G (s.put i (.outside .ret)) :=
  h.put hrule.outside fun _ hr => absurd hr List.not_mem_nil

omit [DecidableEq ρ] in
theorem ConnectionInv.commit (hrule : ConnectionRule E program F P G) (h : ConnectionInv P G s)
    {i : Fin n} {entry : ε} {next : Prog σ ω ρ ε}
    (hprog : (s.connection i).prog = .commit entry next) :
    ConnectionInv P G { s.put i (.outside next) with
      committed := s.view E i, log := s.log ++ [entry] } := by
  obtain ⟨hnext, hshared⟩ := hrule.commit (h.connections i) h.shared hprog
  refine ⟨fun j => ?_, ?_, hshared⟩
  · by_cases hj : j = i
    · subst hj
      simp only [System.put, Function.update_self]
      exact hnext
    · simp only [System.put, Function.update_of_ne hj]
      exact hrule.other (h.connections i) (h.connections j) hprog (h.apart i j (Ne.symm hj))
  · refine pairwise_update (R := fun x y : Connection σ ω ρ ε => ∀ r ∈ x.locks, r ∉ y.locks)
      (fun hxy r hr hr' => hxy r hr' hr) h.apart fun j _ r hr => ?_
    exact absurd hr List.not_mem_nil

theorem ConnectionInv.go (hrule : ConnectionRule E program F P G) {i : Fin n}
    (h : ConnectionInv P G s) (hfine : F s.committed (s.connection i))
    (hgo : s.go E i = some s') : ConnectionInv P G s' := by
  have hx := h.connections i
  cases hprog : (s.connection i).prog with
  | ret => simp [System.go, hprog] at hgo
  | rollback =>
    simp only [System.go, hprog, Option.some.injEq] at hgo
    subst hgo
    exact h.stop hrule i
  | select next =>
    simp only [System.go, hprog, Option.some.injEq] at hgo
    subst hgo
    exact h.put (hrule.select hx hprog) fun r hr => .inl hr
  | forUpdate rows next =>
    simp only [System.go, hprog] at hgo
    split at hgo
    case isFalse => cases hgo
    case isTrue hfree =>
      cases hgo
      exact h.lock (hrule.forUpdate hx hprog) hfree rfl
  | write w next =>
    simp only [System.go, hprog] at hgo
    split at hgo
    case isFalse => cases hgo
    case isTrue hfree =>
      split at hgo
      case isTrue hsome =>
        cases hgo
        exact h.lock (hrule.write hx hfine hprog hsome) hfree rfl
      case isFalse =>
        cases hgo
        exact h.stop hrule i
  | commit entry next =>
    simp only [System.go, hprog, Option.some.injEq] at hgo
    subst hgo
    exact h.commit hrule hprog

theorem ConnectionInv.step (hrule : ConnectionRule E program F P G) {e : ConnectionEvent τ n}
    (h : ConnectionInv P G s) (hfine : Connection.FineStep F e s)
    (hstep : s.step E program e = some s') : ConnectionInv P G s' := by
  cases e with
  | go i => exact h.go hrule hfine hstep
  | begin i p =>
    simp only [System.step] at hstep
    split at hstep
    case h_1 hret =>
      cases hstep
      exact h.put (hrule.begin p (h.connections i) hret) fun r hr => .inl hr
    case h_2 => cases hstep
  | fail i =>
    simp only [System.step] at hstep
    split at hstep
    case h_1 => cases hstep
    case h_2 =>
      cases hstep
      exact h.stop hrule i

/-- **The rule for connections**: in every state of a run whose writes are fine, `P` holds of every
connection and `G` of the database. -/
theorem ConnectionRule.run (hrule : ConnectionRule E program F P G) {t : σ} (hstart : G t [])
    {es : List (ConnectionEvent τ n)}
    (hfine : AllSteps (System.step E program) (Connection.FineStep F) es (System.start t))
    (hrun : run (System.step E program) es (System.start t) = some s) : ConnectionInv P G s := by
  have hinv : ConnectionInv P G (System.start t : System σ ω ρ ε n) :=
    ⟨fun _ => hrule.outside, fun _ _ _ r hr => absurd hr List.not_mem_nil, hstart⟩
  exact run_keeps (fun h hok hstep => ConnectionInv.step hrule h hok hstep) hinv hfine hrun

end

end TokuQa.Lib
