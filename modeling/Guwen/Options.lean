/-
**Options: how the generated program is wrapped and indented.**

An empty option stands for its default (`Options.withDefaults`).
-/
import Guwen.Text

namespace Guwen

/-- **The options of code generation.** -/
structure Options where
  /-- The C# namespace. -/
  space : Text
  /-- The class that holds the entry point. -/
  className : Text
  /-- Written once for each level of nesting. -/
  indent : Text
deriving DecidableEq, Repr

namespace Options

/-- The defaults. -/
def standard : Options := ⟨"文言文程序", "主類", "    "⟩

/-- All options empty. -/
def blank : Options := ⟨[], [], []⟩

/-- **The options with every empty one replaced by its default.** -/
def withDefaults (o : Options) : Options where
  space := if o.space.isEmpty then standard.space else o.space
  className := if o.className.isEmpty then standard.className else o.className
  indent := if o.indent.isEmpty then standard.indent else o.indent

end Options

end Guwen
