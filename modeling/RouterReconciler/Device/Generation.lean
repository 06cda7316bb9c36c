import RouterReconciler.Device.Basic
import RouterReconciler.Text.Shown

/-!
Asking a device for the generation of its firmware.
-/
namespace RouterReconciler.Generation
variable {σ : Type} [Device σ]

def resource : Facility := ⟨⟨"/system resource"⟩,.singleton⟩

def detect : Inquiry σ Generation := do
  let r ← resource.readOne
  match r.get? "version" with
  | none => .fail (.failed (.notFound "/system resource version"))
  | some v =>
    match ofVersion? v.text with
    | some os => return os
    | none =>
      .fail (.failed (.commandFailed "/system resource get version"
        ("unrecognised version " ++ Text.shown v.text)))

def resolve (configured : Option Generation) : Inquiry σ Generation :=
  match configured with
  | some os => pure os
  | none => detect

end RouterReconciler.Generation
