import Mathlib.Init

/-!
# The statements of one transaction

A transaction is a program of statements that read and write the working tables. At most one
of them is struck by an error of the server; every statement has a name (`Site`), and the error
strikes the one it names when that is reached. A statement can also refuse what it finds. Either
way the program ends, and its caller rolls back: the tables it had worked on are not part of the
outcome then.

`bind_eq_ok` takes a program that ended well apart into its statements, whatever could
have struck it; without an error (`strike = none`) programs are evaluated.
-/

set_option autoImplicit false

namespace TokuQa.Lib

/-- A program: what it returns and the tables it leaves, if the error strikes at `strike`. -/
def Work (Site ε σ α : Type) := Option Site → σ → Except ε (α × σ)

namespace Work

variable {Site ε σ α β : Type}

instance : Monad (Work Site ε σ) where
  pure v := fun _ t => .ok (v, t)
  bind x f := fun strike t =>
    match x strike t with
    | .ok (v, t) => f v strike t
    | .error e => .error e

def fail (e : ε) : Work Site ε σ α := fun _ _ => .error e

def ofOption (e : ε) : Option α → Work Site ε σ α
  | some v => pure v
  | none => fail e

section

variable [DecidableEq Site]

/-- One statement; `e` is what an error of the server is to the program. -/
def statement (site : Site) (e : ε) (f : σ → Except ε (α × σ)) : Work Site ε σ α :=
  fun strike t => if strike = some site then .error e else f t

/-- A statement that reads; no row is an error too. -/
def fetch (site : Site) (e : ε) (f : σ → Option α) : Work Site ε σ α :=
  statement site e fun t =>
    match f t with
    | some v => .ok (v, t)
    | none => .error e

/-- A statement that writes; what it does not accept is an error. -/
def write (site : Site) (e : ε) (f : σ → Option σ) : Work Site ε σ Unit :=
  statement site e fun t =>
    match f t with
    | some t => .ok ((), t)
    | none => .error e

end

/-! ## Taking programs apart -/

variable {x : Work Site ε σ α} {f : α → Work Site ε σ β} {strike : Option Site} {t t' : σ}

theorem pure_eq_ok {v v' : α} :
    (pure v : Work Site ε σ α) strike t = .ok (v', t') ↔ v = v' ∧ t = t' := by
  show (Except.ok (v, t) : Except ε (α × σ)) = .ok (v', t') ↔ _
  rw [Except.ok.injEq, Prod.mk.injEq]

theorem ofOption_eq_ok {e : ε} {o : Option α} {v : α} :
    (ofOption e o : Work Site ε σ α) strike t = .ok (v, t') ↔ o = some v ∧ t' = t := by
  cases o with
  | none => exact ⟨(fun h => nomatch h), fun h => nomatch h.1⟩
  | some w =>
    rw [ofOption, pure_eq_ok, Option.some.injEq]
    exact and_congr_right fun _ => eq_comm

theorem bind_eq_ok {r : β × σ} : (x >>= f) strike t = .ok r ↔
    ∃ v t₁, x strike t = .ok (v, t₁) ∧ f v strike t₁ = .ok r := by
  show (match x strike t with
    | .ok (v, t) => f v strike t
    | .error e => .error e) = .ok r ↔ _
  cases hx : x strike t with
  | error e => simp
  | ok p => exact ⟨fun h => ⟨p.1, p.2, rfl, h⟩, fun ⟨v, t₁, he, h⟩ => by cases he; exact h⟩

theorem bind_of_ok {v : α} (h : x strike t = .ok (v, t')) : (x >>= f) strike t = f v strike t' := by
  show (match x strike t with
    | .ok (v, t) => f v strike t
    | .error e => .error e) = _
  rw [h]

theorem bind_of_error {e : ε} (h : x strike t = .error e) : (x >>= f) strike t = .error e := by
  show (match x strike t with
    | .ok (v, t) => f v strike t
    | .error e => .error e) = _
  rw [h]

variable [DecidableEq Site] {site : Site} {e : ε}

theorem statement_eq_ok {g : σ → Except ε (α × σ)} {r : α × σ} :
    statement site e g strike t = .ok r ↔ strike ≠ some site ∧ g t = .ok r := by
  unfold statement
  by_cases h : strike = some site
  · simp [h]
  · simp [h]

theorem fetch_eq_ok {g : σ → Option α} {v : α} :
    fetch site e g strike t = .ok (v, t') ↔ strike ≠ some site ∧ g t = some v ∧ t' = t := by
  rw [fetch, statement_eq_ok]
  refine and_congr_right fun _ => ?_
  cases g t with
  | none => simp
  | some w => simp [eq_comm]

theorem write_eq_ok {g : σ → Option σ} {u : Unit} :
    write site e g strike t = .ok (u, t') ↔ strike ≠ some site ∧ g t = some t' := by
  rw [write, statement_eq_ok]
  refine and_congr_right fun _ => ?_
  cases g t with
  | none => simp
  | some w => simp

/-- There is nothing to fetch. -/
theorem fetch_of_none {g : σ → Option α} (h : g t = none) : fetch site e g strike t = .error e := by
  unfold fetch statement
  simp only [h, ite_self]

end Work

end TokuQa.Lib
