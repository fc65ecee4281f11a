import TokuQa.Lib.Connections

/-!
# Phases of a transaction

Some programs bring the database through states that nobody should see. What such a state is like,
beside the log, is a phase: the statements that write go from one phase to the next, a commit ends
in the idle one, and whoever leaves a transaction open is in it too. If each program keeps to that
on its own, whatever it reads, everything that is ever committed is as the idle phase has it
(`Phases.run`).
-/

set_option autoImplicit false

namespace TokuQa.Lib

variable {σ ω ρ ε τ Φ : Type} {n : Nat}

/-- What holds of log and database in each phase, how a statement that writes goes on, and what may
be said at a commit. -/
structure Phases (E : Engine σ ω ρ) (ε Φ : Type) where
  idle : Φ
  holds : Φ → List ε → σ → Prop
  goes : Φ → ω → Φ → Prop
  ends : Φ → ε → Prop
  apply : ∀ {φ w φ' log t}, goes φ w φ' → holds φ log t → holds φ' log (E.apply t w)
  commit : ∀ {φ e log t}, ends φ e → holds φ log t → holds idle (log ++ [e]) t

namespace Phases

variable {E : Engine σ ω ρ} (K : Phases E ε Φ)

/-- **A program keeps to the phases**, whatever it finds in a database that is as they have it. -/
def Tracks : Φ → Prog σ ω ρ ε → Prop
  | φ, .ret => φ = K.idle
  | _, .rollback => True
  | φ, .select next => ∀ log t, K.holds K.idle log t → Tracks φ (next t)
  | φ, .forUpdate _ next => ∀ log t, K.holds φ log t → Tracks φ (next t)
  | φ, .write w next => ∃ φ', K.goes φ w φ' ∧ Tracks φ' next
  | φ, .commit entry next => K.ends φ entry ∧ Tracks K.idle next

/-- A connection in a phase. -/
structure InPhase (x : Connection σ ω ρ ε) (φ : Φ) : Prop where
  prog : K.Tracks φ x.prog
  writes : ∀ log t, K.holds K.idle log t → K.holds φ log (E.applyAll x.writes t)
  snapshot : ∀ t, x.snapshot = some t → ∃ log, K.holds K.idle log t

structure Inv (s : System σ ω ρ ε n) : Prop where
  committed : K.holds K.idle s.log s.committed
  connections : ∀ i, ∃ φ, K.InPhase (s.connection i) φ

section

variable {K} {s s' : System σ ω ρ ε n} {x : Connection σ ω ρ ε} {φ φ' : Φ}

theorem inPhase_outside {prog : Prog σ ω ρ ε} (h : K.Tracks K.idle prog) :
    K.InPhase (.outside prog) K.idle :=
  ⟨h, fun _ _ ht => ht, fun _ ht => by cases ht⟩

theorem Inv.put (h : K.Inv s) {i : Fin n} (hx : K.InPhase x φ) : K.Inv (s.put i x) where
  committed := h.committed
  connections := forall_update (P := fun _ x => ∃ φ, K.InPhase x φ) h.connections ⟨φ, hx⟩

/-- A statement that has written. -/
theorem InPhase.write {w : ω} {next : Prog σ ω ρ ε} {locks : List ρ} (h : K.InPhase x φ)
    (hgoes : K.goes φ w φ') (hnext : K.Tracks φ' next) :
    K.InPhase { x with prog := next, writes := x.writes ++ [w], locks := locks } φ' := by
  refine ⟨hnext, fun log t ht => ?_, h.snapshot⟩
  show K.holds φ' log (E.applyAll (x.writes ++ [w]) t)
  rw [Engine.applyAll_append]
  exact K.apply hgoes (h.writes log t ht)

/-- What a connection has before it. -/
theorem Inv.view (h : K.Inv s) (i : Fin n) :
    ∃ φ, K.Tracks φ (s.connection i).prog ∧ K.holds φ s.log (s.view E i) := by
  obtain ⟨φ, hx⟩ := h.connections i
  exact ⟨φ, hx.prog, hx.writes _ _ h.committed⟩

variable [DecidableEq ρ]

theorem Inv.go (h : K.Inv s) {i : Fin n} (hgo : s.go E i = some s') : K.Inv s' := by
  obtain ⟨φ, hx⟩ := h.connections i
  have hprog := hx.prog
  have hview : K.holds φ s.log (s.view E i) := hx.writes _ _ h.committed
  unfold System.go at hgo
  dsimp only at hgo
  cases hp : (s.connection i).prog with
  | ret =>
    rw [hp] at hgo
    cases hgo
  | rollback =>
    rw [hp] at hgo
    cases hgo
    exact h.put (inPhase_outside rfl)
  | select next =>
    rw [hp] at hgo hprog
    cases hgo
    obtain ⟨log, hsnapshot⟩ :
        ∃ log, K.holds K.idle log ((s.connection i).snapshot.getD s.committed) := by
      cases hsnap : (s.connection i).snapshot with
      | none => exact ⟨_, h.committed⟩
      | some t => exact hx.snapshot t hsnap
    refine h.put ⟨hprog log _ hsnapshot, hx.writes, fun t ht => ⟨log, ?_⟩⟩
    exact Option.some.inj ht ▸ hsnapshot
  | forUpdate rows next =>
    rw [hp] at hgo hprog
    dsimp only at hgo
    split at hgo
    case isFalse => cases hgo
    case isTrue =>
      cases hgo
      exact h.put ⟨hprog _ _ hview, hx.writes, hx.snapshot⟩
  | write w next =>
    rw [hp] at hgo hprog
    dsimp only at hgo
    obtain ⟨φ', hgoes, hnext⟩ := hprog
    split at hgo
    case isFalse => cases hgo
    case isTrue =>
      split at hgo
      case isTrue =>
        cases hgo
        exact h.put (hx.write hgoes hnext)
      case isFalse =>
        cases hgo
        exact h.put (inPhase_outside rfl)
  | commit entry next =>
    rw [hp] at hgo hprog
    cases hgo
    obtain ⟨hends, hnext⟩ := hprog
    exact ⟨K.commit hends hview, (h.put (inPhase_outside hnext)).connections⟩

theorem Inv.step {program : τ → Prog σ ω ρ ε} (hprogram : ∀ p, K.Tracks K.idle (program p))
    (h : K.Inv s) {e : ConnectionEvent τ n} (hstep : s.step E program e = some s') :
    K.Inv s' := by
  cases e with
  | go i => exact h.go hstep
  | begin i p =>
    simp only [System.step] at hstep
    split at hstep
    case h_1 hret =>
      cases hstep
      obtain ⟨φ, hx⟩ := h.connections i
      have hidle := hx.prog
      rw [hret] at hidle
      obtain rfl : φ = K.idle := hidle
      exact h.put ⟨hprogram p, hx.writes, hx.snapshot⟩
    case h_2 => cases hstep
  | fail i =>
    simp only [System.step] at hstep
    split at hstep
    case h_1 => cases hstep
    case h_2 =>
      cases hstep
      exact h.put (inPhase_outside rfl)

/-- **The rule for phases**: in every state of a run of programs that keep to the phases, what is
committed is as the idle one has it, and each connection has before it what holds in its phase. -/
theorem run {program : τ → Prog σ ω ρ ε} (hprogram : ∀ p, K.Tracks K.idle (program p)) {t : σ}
    (hstart : K.holds K.idle [] t) {es : List (ConnectionEvent τ n)}
    (hrun : TokuQa.Lib.run (System.step E program) es (System.start t) = some s) : K.Inv s := by
  have hinv : K.Inv (System.start t : System σ ω ρ ε n) :=
    ⟨hstart, fun _ => ⟨K.idle, inPhase_outside rfl⟩⟩
  exact run_invariant (fun h hstep => Inv.step hprogram h hstep) hinv hrun

end

end Phases

end TokuQa.Lib
