import PipedCompiler.Proofs.Compile.Loading

/-!
# Loading that is carried over

Two steps of loading may go the same way from different states: they ask the same, whatever the
answers, and come to states and results that differ in the same manner.
-/

namespace PipedCompiler.Compile.Loading

open PipedCompiler.Language

variable {α β γ δ : Type} {σ : Progress → Progress} {τ : Host → Host}

/-- Whether a step of loading goes from `σ p` as another one goes from `p`: it asks the same, and it
comes to what `f` and `σ` make of the other's result. -/
def Carries (σ : Progress → Progress) (f : α → β) (m : Loading α) (m' : Loading β) : Prop :=
  ∀ p, (m'.run (σ p)).run = (Except.map fun r ↦ (f r.1, σ r.2)) <$> (m.run p).run

namespace Carries

theorem pure {f : α → β} (a : α) : Carries σ f (Pure.pure a) (Pure.pure (f a)) :=
  fun _ ↦ rfl

theorem throw {f : α → β} (halt : Halt) :
    Carries σ f (MonadExcept.throw halt) (MonadExcept.throw halt) :=
  fun _ ↦ rfl

theorem bind {f : α → β} {h : γ → δ} {m : Loading α} {m' : Loading β} {k : α → Loading γ}
    {k' : β → Loading δ} (hm : Carries σ f m m') (hk : ∀ a, Carries σ h (k a) (k' (f a))) :
    Carries σ h (m >>= k) (m' >>= k') := by
  intro p
  rw [StateT.run_bind, StateT.run_bind, ExceptT.run_bind, ExceptT.run_bind, hm p, map_bind,
    bind_map_left]
  apply bind_congr
  intro r
  cases r with
  | error halt => rfl
  | ok r => exact hk r.1 r.2

theorem get {h : γ → δ} {k : Progress → Loading γ} {k' : Progress → Loading δ}
    (hk : ∀ p, Carries σ h (k p) (k' (σ p))) : Carries σ h (get >>= k) (get >>= k') :=
  fun p ↦ hk p p

theorem modify {f f' : Progress → Progress} (hf : ∀ p, f' (σ p) = σ (f p)) :
    Carries σ id (modify f) (modify f') := by
  intro p
  show Dialogue.done (Except.ok ((), f' (σ p))) = _
  rw [hf]
  rfl

/-- What hosts that differ by `τ` do is carried over, if states differ by it in their hosts. -/
theorem hosted {f : α → β} {action : Hosted α} {action' : Hosted β}
    (hhosts : ∀ p host, σ { p with host } = { σ p with host := τ host })
    (h : ∀ host, action'.run (τ host) = (fun r ↦ (f r.1, τ r.2)) <$> action.run host) :
    Carries σ f (hosted action) (hosted action') := by
  intro p
  have hhost : (σ p).host = τ p.host := congrArg Progress.host (hhosts p p.host)
  show (action'.run (σ p).host).bind _ = _ <$> (action.run p.host).bind _
  rw [hhost, h p.host, ← Dialogue.bind_eq, ← Dialogue.bind_eq, map_bind, bind_map_left]
  apply bind_congr
  rintro ⟨a, host⟩
  show Dialogue.done (Except.ok (f a, { σ p with host := τ host })) = _
  rw [← hhosts]
  rfl

theorem follow {load load' : String → Loading Bool}
    (h : ∀ path, Carries σ id (load path) (load' path)) (found : Option String) :
    Carries σ id (Loading.follow load found) (Loading.follow load' found) := by
  cases found with
  | none => exact pure false
  | some path => exact h path

theorem loadImports {load load' : String → Loading Bool}
    (hresolve : ∀ importer specifier,
      Carries σ id (resolve importer specifier) (resolve importer specifier))
    (h : ∀ path, Carries σ id (load path) (load' path)) (importer : String) (is : List Import) :
    Carries σ id (Loading.loadImports load importer is)
      (Loading.loadImports load' importer is) := by
  induction is with
  | nil => exact pure []
  | cons i is ih =>
      rw [loadImports_cons, loadImports_cons]
      refine bind (hresolve importer i.specifier) fun found ↦ ?_
      exact bind (follow h found) fun there ↦ bind ih fun others ↦ pure _

end Carries

end PipedCompiler.Compile.Loading
