import DesignTokens.Theme.Assembly
import DesignTokens.Theme.Draft
import DesignTokens.Token.Default

/-!
The base theme. It is assembled from the default tokens when it is first asked for, unless another
theme was installed before that.
-/

namespace DesignTokens.Theme

def defaultName : String := "default"

def standard : Except ThemeError Theme := assemble Token.Default.tree defaultName

structure Base where
  theme? : Option Theme

namespace Base

def unset : Base := ⟨none⟩

/-- Asking for the base theme settles it. A failure leaves it open. -/
def get (base : Base) : Except ThemeError Theme × Base :=
  match base.theme?, standard with
  | some theme, _ => (.ok theme, base)
  | none, .ok theme => (.ok theme, ⟨some theme⟩)
  | none, .error e => (.error e, base)

def install (base : Base) (theme : Theme) : Except ThemeError Unit × Base :=
  match base.theme? with
  | some _ => (.error .baseAlreadyInitialized, base)
  | none => (.ok (), ⟨some theme⟩)

end Base

def create (overrides : Overrides) (theme? : Option Theme) (base : Base) :
    Except ThemeError Draft × Base :=
  match theme? with
  | some theme => (theme.derive overrides, base)
  | none =>
      match base.get with
      | (.error e, base) => (.error e, base)
      | (.ok theme, base) => (theme.derive overrides, base)

end DesignTokens.Theme
