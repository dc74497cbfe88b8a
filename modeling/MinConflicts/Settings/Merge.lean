import MinConflicts.Settings.Reading

/-!
# Merging settings

Settings are merged with overrides: other settings, or a value to read settings from. Of the
overrides only the given settings count. The result is read anew, with all five settings given.
-/
namespace MinConflicts

namespace Settings

inductive Overrides where
  | settings (s : Settings)
  | value (v : Value)

def toEntry (v : Value) : Except Fault (Value × Value) := do
  match ← v.members with
  | [k, w] => if k.isKey then return (k, w) else .error .wrongType
  | _ => .error .badValue

def toDict : Value → Except Fault Value
  | .dict es => .ok (.dict es)
  | v => do return .ofEntries (← (← v.members).mapM toEntry)

def overridden (s o : Settings) (f : Setting) : Value :=
  if o.given.contains f then o.valueOf f else s.valueOf f

def override (s o : Settings) : Except Fault Settings :=
  ofEntries (Setting.all.map fun f => (.str f.key, s.overridden o f))

/-- The settings merged with overrides, and the warnings that reading these gives. Without
overrides the settings stay. -/
def merged (s : Settings) : Option Overrides → List Log.Record × Except Fault Settings
  | none => ([], .ok s)
  | some (.settings o) => ([], s.override o)
  | some (.value v) => match toDict v with
    | .error e => ([], .error e)
    | .ok d => (warnings d, ofValue d >>= s.override)

structure Made where
  number : Nat
  settings : Settings

namespace Made

def same (a b : Made) : Bool := a.number == b.number

/-- Whether all five settings are equal. A NaN is equal to nothing but itself, so settings with
one agree with no others. -/
def agrees (a b : Made) : Bool := a.same b || a.settings.agrees b.settings

def merged (a : Made) (fresh : Nat) : Option Overrides → List Log.Record × Except Fault Made
  | none => ([], .ok a)
  | some o =>
    let (rs, s) := a.settings.merged (some o)
    (rs, s.map (⟨fresh, ·⟩))

end Made

end Settings

end MinConflicts
