import SwitchController.Device.Control
import SwitchController.Lib.FlatJson

/-! # Flat commands

The PC writes its commands as compact flat objects. What that asks of the parser of the
firmware is one condition, and a reader of such objects alone already meets it.
-/

namespace SwitchController.Device

open Memory FlatJson

def scalarTree : Scalar → CJson
  | .string text => .string text
  | .number n => .number (.finite n)

/-- The tree of a flat object. -/
def tree (o : Object) : CJson := .object (o.map fun m => (m.1, scalarTree m.2))

/-- A parser that reads compact flat objects as JSON says; doubles hold the numbers. -/
def ParsesFlat (parse : Bytes → Option CJson) : Prop :=
  ∀ o, Plain o → (∀ key n, (key, .number n) ∈ o → n < 2 ^ 53) → parse (dumps o) = some (tree o)

/-- A parser of flat objects alone. -/
def parseFlat (s : Bytes) : Option CJson := (read s).map tree

theorem parseFlat_parses : ParsesFlat parseFlat := by
  intro o h _
  rw [parseFlat, read_dumps h, Option.map_some]

end SwitchController.Device
