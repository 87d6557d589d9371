/-!
# Computations that emit notices

An `Emission` is a value together with the notices given while it was computed.  Notices can be
added and never read, so nothing that is computed depends on them.  They are kept oldest first.
-/

namespace RecursiveDescent

/-- A value of type `α`, and the notices given on the way to it, oldest first. -/
structure Emission (ω α : Type) where
  value : α
  emitted : List ω

namespace Emission

variable {ω α β : Type}

def emit (notice : ω) : Emission ω Unit :=
  ⟨(), [notice]⟩

instance : Monad (Emission ω) where
  pure value := ⟨value, []⟩
  bind first next :=
    let second := next first.value
    ⟨second.value, first.emitted ++ second.emitted⟩

@[simp] theorem value_pure (value : α) : (pure value : Emission ω α).value = value := rfl

@[simp] theorem emitted_pure (value : α) : (pure value : Emission ω α).emitted = [] := rfl

@[simp] theorem value_bind (first : Emission ω α) (next : α → Emission ω β) :
    (first >>= next).value = (next first.value).value := rfl

@[simp] theorem emitted_bind (first : Emission ω α) (next : α → Emission ω β) :
    (first >>= next).emitted = first.emitted ++ (next first.value).emitted := rfl

@[simp] theorem emitted_emit (notice : ω) : (emit notice).emitted = [notice] := rfl

instance : LawfulMonad (Emission ω) :=
  LawfulMonad.mk' (Emission ω)
    (fun first => by
      cases first
      simp [Functor.map])
    (fun value next => by
      simp [pure, bind])
    (fun first next last => by
      simp [bind, List.append_assoc])

end Emission

end RecursiveDescent
