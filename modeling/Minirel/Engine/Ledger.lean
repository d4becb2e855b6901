import Mathlib.Data.Finset.Basic
import Minirel.Flat
import Minirel.Lib.Service

/-! What clients owe the engine. They access pages they have pinned, release a
page they wrote to as dirty, close a file without pins on it, and hold fewer
pins than there are frames. To such clients the engine offers flat storage. -/
namespace Minirel

/-- How often each file is open, the pins that are held, and the pages that were
written to or allocated and not released as dirty since. -/
structure Ledger where
  opens : Name → Nat
  pins : List (Name × Int)
  owed : Finset (Name × Int)

namespace Ledger

def empty : Ledger := ⟨fun _ => 0, [], ∅⟩

def account : (c : StorageCall) → Ledger → c.Reply → Ledger
  | .openFile name, g, status =>
    if status = .ok then { g with opens := Function.update g.opens name (g.opens name + 1) } else g
  | .closeFile name, g, _ => { g with opens := Function.update g.opens name (g.opens name - 1) }
  | .readPage name n, g, status => if status = .ok then { g with pins := (name, n) :: g.pins } else g
  | .allocPage name, g, .ok n => { g with pins := (name, n) :: g.pins, owed := insert (name, n) g.owed }
  | .unPinPage name n dirty, g, _ =>
    { g with pins := g.pins.erase (name, n), owed := if dirty then g.owed.erase (name, n) else g.owed }
  | .store name n _, g, _ => { g with owed := insert (name, n) g.owed }
  | _, g, _ => g

/-- The calls that are in order. A page somebody wrote to may be released as
clean as long as another pin on it is left. -/
def Permits (bufs : Nat) : StorageCall → Ledger → Prop
  | .openFile name, _ | .createFile name, _ | .destroyFile name, _ => 0 ∉ name
  | .closeFile name, g => 0 < g.opens name ∧ (g.opens name = 1 → ∀ p ∈ g.pins, p.1 ≠ name)
  | .getFirstPage name, g => 0 < g.opens name
  | .readPage name _, g | .allocPage name, g => 0 < g.opens name ∧ g.pins.length < bufs
  | .unPinPage name n dirty, g =>
    (name, n) ∈ g.pins ∧ (dirty = false → (name, n) ∈ g.owed → 2 ≤ g.pins.count (name, n))
  | .flushFile name, g => 0 < g.opens name ∧ ∀ p ∈ g.pins, p.1 ≠ name
  | .load name n, g | .store name n _, g => (name, n) ∈ g.pins

end Ledger

def StorageCall.grows : StorageCall → Bool
  | .allocPage _ | .createFile _ => true
  | _ => false

def Flat.Exists : StorageCall → Flat → Prop
  | .readPage name n, st => ∃ f, st.files name = some f ∧ 1 ≤ n ∧ n < f.numPages
  | _, _ => True

/-- Flat storage as a service to clients that keep to the rules. What a new page
holds is left open. -/
def Flat.service (bufs : Nat) : Program.Service StorageCall.Reply (Flat × Ledger) where
  ready c s := s.2.Permits bufs c ∧ s.1.Exists c
  answers c s reply t := t.2 = s.2.account c reply ∧
    ∃ scratch, (c.grows = false → scratch = s.1.scratch) ∧
      Flat.handle c { s.1 with scratch := scratch } = some (reply, t.1)

end Minirel
