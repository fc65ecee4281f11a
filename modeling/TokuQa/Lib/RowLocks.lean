import TokuQa.Lib.Connections

/-!
# Rows that are locked

The statements of a `RowServer` write in rows that they name, and lock these first. Whatever a
connection commits is then in rows that it has locked itself, so that what is known of the rows of
another one stays as it is: a fact about connections that goes by the rows they have locked needs
nothing said of the commits beside them (`LockRule.connectionRule`).
-/

set_option autoImplicit false

namespace TokuQa.Lib

/-- Statements that go by the rows they name, and write in them. `row` is what a row of the database
holds; a statement that refuses leaves it. -/
structure RowServer (σ ω ρ : Type) (ν : ρ → Type) where
  row : (r : ρ) → σ → ν r
  names : ω → List ρ
  write : ω → σ → Option σ
  elsewhere : ∀ {w s r}, r ∉ names w → row r ((write w s).getD s) = row r s
  within : ∀ {w s s'}, (∀ r ∈ names w, row r s' = row r s) →
    ∀ r ∈ names w, row r ((write w s').getD s') = row r ((write w s).getD s)

namespace RowServer

variable {σ ω ρ : Type} {ν : ρ → Type} (S : RowServer σ ω ρ ν)

def engine : Engine σ ω ρ where
  rows w _ := S.names w
  write := S.write

/-- The rows hold the same in both. -/
def Same (rows : List ρ) (t t' : σ) : Prop := ∀ r ∈ rows, S.row r t' = S.row r t

variable {S}

theorem row_apply {w : ω} {r : ρ} (h : r ∉ S.names w) (t : σ) :
    S.row r (S.engine.apply t w) = S.row r t :=
  S.elsewhere h

/-- Statements leave the rows alone that none of them names. -/
theorem row_applyAll {ws : List ω} {r : ρ} (h : ∀ w ∈ ws, r ∉ S.names w) (t : σ) :
    S.row r (S.engine.applyAll ws t) = S.row r t := by
  induction ws using List.reverseRecOn with
  | nil => rfl
  | append_singleton ws w ih =>
    rw [Engine.applyAll_append, row_apply (h w (by simp))]
    exact ih fun w' hw' => h w' (List.mem_append_left _ hw')

/-- What statements make of rows goes by what these hold, where they name no others. -/
theorem same_applyAll {ws : List ω} {rows : List ρ} {t t' : σ} (h : S.Same rows t t')
    (hws : ∀ w ∈ ws, ∀ r ∈ S.names w, r ∈ rows) :
    S.Same rows (S.engine.applyAll ws t) (S.engine.applyAll ws t') := by
  induction ws using List.reverseRecOn with
  | nil => exact h
  | append_singleton ws w ih =>
    have hbefore := ih fun w' hw' => hws w' (List.mem_append_left _ hw')
    intro r hr
    rw [Engine.applyAll_append, Engine.applyAll_append]
    by_cases hname : r ∈ S.names w
    · exact S.within (fun r' hr' => hbefore r' (hws w (by simp) r' hr')) r hname
    · rw [row_apply hname, row_apply hname]
      exact hbefore r hr

end RowServer

/-! ## The rule -/

variable {σ ω ρ ε τ : Type} {ν : ρ → Type} {n : Nat}

/-- What is to be shown of a fact about connections that goes by the rows they have locked. -/
structure LockRule (S : RowServer σ ω ρ ν) (program : τ → Prog σ ω ρ ε)
    (F P : σ → Connection σ ω ρ ε → Prop) (G : σ → List ε → Prop) : Prop where
  /-- The rest of the database does not matter. -/
  congr : ∀ {t t' x}, S.Same x.locks t t' → P t x → P t' x
  begin : ∀ {t x} p, P t x → x.prog = .ret → P t { x with prog := program p }
  outside : ∀ {t}, P t (.outside .ret)
  select : ∀ {t x next}, P t x → x.prog = .select next →
    P t { x with prog := next (x.snapshot.getD t), snapshot := some (x.snapshot.getD t) }
  forUpdate : ∀ {t x rows next}, P t x → x.prog = .forUpdate rows next →
    P t { x with
      prog := next (S.engine.applyAll x.writes t)
      locks := rows (S.engine.applyAll x.writes t) ++ x.locks }
  write : ∀ {t x w next}, P t x → F t x → x.prog = .write w next →
    (S.write w (S.engine.applyAll x.writes t)).isSome = true →
    P t { x with prog := next, writes := x.writes ++ [w], locks := S.names w ++ x.locks }
  commit : ∀ {t x entry next log}, P t x → G t log → x.prog = .commit entry next →
    P (S.engine.applyAll x.writes t) (.outside next) ∧
      G (S.engine.applyAll x.writes t) (log ++ [entry])

/-- The fact, and that the rows that were written are locked. -/
structure Locked (S : RowServer σ ω ρ ν) (P : σ → Connection σ ω ρ ε → Prop) (t : σ)
    (x : Connection σ ω ρ ε) : Prop where
  holds : P t x
  written : ∀ w ∈ x.writes, ∀ r ∈ S.names w, r ∈ x.locks

section

variable {S : RowServer σ ω ρ ν} {program : τ → Prog σ ω ρ ε} {t : σ}
  {F P : σ → Connection σ ω ρ ε → Prop} {G : σ → List ε → Prop} {x y : Connection σ ω ρ ε}

theorem Locked.outside {prog : Prog σ ω ρ ε} (h : P t (.outside prog)) :
    Locked S P t (.outside prog) :=
  ⟨h, fun _ hw => absurd hw List.not_mem_nil⟩

/-- A connection that goes on with what it has written, and locks more rows. -/
theorem Locked.more (h : Locked S P t x) (hy : P t y) (hwrites : y.writes = x.writes)
    (hlocks : x.locks ⊆ y.locks) : Locked S P t y := by
  refine ⟨hy, fun w hw r hr => hlocks ?_⟩
  rw [hwrites] at hw
  exact h.written w hw r hr

/-- What one connection commits is the same to all others. -/
theorem Locked.same (h : Locked S P t x) (hapart : ∀ r ∈ x.locks, r ∉ y.locks) :
    S.Same y.locks t (S.engine.applyAll x.writes t) := fun r hr =>
  RowServer.row_applyAll (fun w hw hname => hapart r (h.written w hw r hname) hr) t

theorem LockRule.connectionRule (hrule : LockRule S program F P G) :
    ConnectionRule S.engine program F (Locked S P) G where
  begin p h hret := h.more (hrule.begin p h.holds hret) rfl fun _ hr => hr
  outside := .outside hrule.outside
  select h hprog := h.more (hrule.select h.holds hprog) rfl fun _ hr => hr
  forUpdate h hprog :=
    h.more (hrule.forUpdate h.holds hprog) rfl fun _ hr => List.mem_append_right _ hr
  write := by
    intro t x w next h hfine hprog hsome
    refine ⟨hrule.write h.holds hfine hprog hsome, fun w' hw' r hr => ?_⟩
    rcases List.mem_append.mp hw' with hold | hnew
    · exact List.mem_append_right _ (h.written w' hold r hr)
    · rw [List.mem_singleton.mp hnew] at hr
      exact List.mem_append_left _ hr
  commit h hshared hprog :=
    (hrule.commit h.holds hshared hprog).imp_left .outside
  other := by
    intro t x y entry next hx hy hprog hapart
    exact ⟨hrule.congr (hx.same hapart) hy.holds, hy.written⟩

/-- **The rule for rows that are locked**: in every state of a run whose writes are fine, `P` holds
of every connection and `G` of the database. -/
theorem LockRule.run [DecidableEq ρ] (hrule : LockRule S program F P G) (hstart : G t [])
    {es : List (ConnectionEvent τ n)} {s : System σ ω ρ ε n}
    (hfine : AllSteps (System.step S.engine program) (Connection.FineStep F) es (System.start t))
    (hrun : TokuQa.Lib.run (System.step S.engine program) es (System.start t) = some s) :
    ConnectionInv (Locked S P) G s :=
  hrule.connectionRule.run hstart hfine hrun

end

end TokuQa.Lib
