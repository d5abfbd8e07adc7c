import Lineage.Shadow

/-!
# How work ends

All work of the library runs over a state and may fail. `Ends work s post` says of one run that its
outcome and its last state satisfy `post`; the lemmas take work apart step by step, so that what a
composite does is read off what its parts do.
-/

namespace Lineage

variable {ε σ α β : Type}

theorem run_bind (work : ExceptT ε (StateM σ) α) (next : α → ExceptT ε (StateM σ) β) (s : σ) :
    (work >>= next).run.run s =
      match work.run.run s with
      | (.ok a, s') => (next a).run.run s'
      | (.error e, s') => (.error e, s') := by
  change (bind (m := StateM σ) work.run (ExceptT.bindCont next)).run s = _
  rw [StateT.run_bind]
  rcases work.run.run s with ⟨r, s'⟩
  cases r <;> rfl

theorem run_get (s : σ) : (get : ExceptT ε (StateM σ) σ).run.run s = (.ok s, s) := rfl

theorem run_tryCatch (work : ExceptT ε (StateM σ) α) (handle : ε → ExceptT ε (StateM σ) α)
    (s : σ) :
    (tryCatch work handle).run.run s =
      match work.run.run s with
      | (.ok a, s') => (.ok a, s')
      | (.error e, s') => (handle e).run.run s' := by
  change (bind (m := StateM σ) work.run fun r => match r with
    | .ok a => pure (.ok a)
    | .error e => (handle e).run).run s = _
  rw [StateT.run_bind]
  rcases work.run.run s with ⟨r, s'⟩
  cases r <;> rfl

/-- Run from `s`, the work comes to an outcome and a state that satisfy `post`. -/
def Ends (work : ExceptT ε (StateM σ) α) (s : σ) (post : Except ε α → σ → Prop) : Prop :=
  post (work.run.run s).1 (work.run.run s).2

theorem Ends.mono {work : ExceptT ε (StateM σ) α} {s : σ} {p q : Except ε α → σ → Prop}
    (h : Ends work s p) (weaker : ∀ r s', p r s' → q r s') : Ends work s q := weaker _ _ h

theorem Ends.both {work : ExceptT ε (StateM σ) α} {s : σ} {p q : Except ε α → σ → Prop}
    (h : Ends work s p) (h' : Ends work s q) : Ends work s fun r s' => p r s' ∧ q r s' := ⟨h, h'⟩

theorem Ends.of_run {work : ExceptT ε (StateM σ) α} {s s' : σ} {r : Except ε α}
    {post : Except ε α → σ → Prop} (run : work.run.run s = (r, s')) (h : post r s') :
    Ends work s post := by
  rw [Ends, run]
  exact h

theorem Ends.at_run {work : ExceptT ε (StateM σ) α} {s s' : σ} {r : Except ε α}
    {post : Except ε α → σ → Prop} (h : Ends work s post) (run : work.run.run s = (r, s')) :
    post r s' := by
  rwa [Ends, run] at h

theorem ends_pure (a : α) (s : σ) (post : Except ε α → σ → Prop) :
    Ends (pure a) s post ↔ post (.ok a) s := Iff.rfl

theorem ends_throw (e : ε) (s : σ) (post : Except ε α → σ → Prop) :
    Ends (throw e) s post ↔ post (.error e) s := Iff.rfl

theorem ends_get (s : σ) (post : Except ε σ → σ → Prop) :
    Ends (get : ExceptT ε (StateM σ) σ) s post ↔ post (.ok s) s := Iff.rfl

theorem ends_set (t s : σ) (post : Except ε PUnit → σ → Prop) :
    Ends (set t : ExceptT ε (StateM σ) PUnit) s post ↔ post (.ok ⟨⟩) t := Iff.rfl

theorem ends_modify (f : σ → σ) (s : σ) (post : Except ε PUnit → σ → Prop) :
    Ends (modify f : ExceptT ε (StateM σ) PUnit) s post ↔ post (.ok ⟨⟩) (f s) := Iff.rfl

theorem ends_adapt {ε' : Type} (f : ε → ε') (work : ExceptT ε (StateM σ) α) (s : σ)
    (post : Except ε' α → σ → Prop) :
    Ends (ExceptT.adapt f work) s post ↔ Ends work s fun r s' => post (r.mapError f) s' := Iff.rfl

theorem ends_bind (work : ExceptT ε (StateM σ) α) (next : α → ExceptT ε (StateM σ) β) (s : σ)
    (post : Except ε β → σ → Prop) :
    Ends (work >>= next) s post ↔
      Ends work s fun r s' =>
        match r with
        | .ok a => Ends (next a) s' post
        | .error e => post (.error e) s' := by
  rw [Ends, run_bind, Ends]
  rcases work.run.run s with ⟨_ | _, s'⟩ <;> rfl

theorem ends_map (f : α → β) (work : ExceptT ε (StateM σ) α) (s : σ)
    (post : Except ε β → σ → Prop) :
    Ends (f <$> work) s post ↔ Ends work s fun r s' => post (r.map f) s' := by
  rw [map_eq_pure_bind, Ends, run_bind, Ends]
  rcases work.run.run s with ⟨_ | _, s'⟩ <;> rfl

theorem ends_tryCatch (work : ExceptT ε (StateM σ) α) (handle : ε → ExceptT ε (StateM σ) α)
    (s : σ) (post : Except ε α → σ → Prop) :
    Ends (tryCatch work handle) s post ↔
      Ends work s fun r s' =>
        match r with
        | .ok a => post (.ok a) s'
        | .error e => Ends (handle e) s' post := by
  rw [Ends, run_tryCatch, Ends]
  rcases work.run.run s with ⟨_ | _, s'⟩ <;> rfl

end Lineage
