import Quarry.Fault

/-!
# Settings — the limits and the layout of answers

Settings are read from a text, which is a mapping from names to values; a text that stands for
nothing changes no setting.  How such texts are written and which values they may hold is not for
the engine to say: both come from outside (`Source`).
-/

namespace Quarry

/-- The limits of the engine and the width of indentation in its answers. -/
structure Settings where
  maxDepth : Nat := 512
  budget : Nat := 10000
  indent : Nat := 2

namespace Settings

/-- What a settings text stands for: nothing, a mapping, or a value of another type. -/
inductive Content (Entries : Type) where
  | nothing
  | mapping (entries : Entries)
  | other (type : String)

/-- The notation of settings texts, and the check of the settings in them. -/
class Source where
  /-- The entries of a mapping. -/
  Entries : Type
  load : String → Except Fault (Content Entries)
  check : Entries → Checked Settings

/-- The settings in a text; `none` is a text that cannot be found. -/
def read [Source] : Option String → Except Fault Settings
  | none => .error (.settings .missing)
  | some text => do
      match ← Source.load text with
      | .nothing => return {}
      | .mapping entries =>
          (Source.check entries).mapError fun complaints => .settings (.invalid complaints)
      | .other type => throw (.settings (.notMapping type))

end Settings

end Quarry
