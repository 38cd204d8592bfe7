import Mathlib.Data.List.Infix

/-!
# Append-only files and power cuts

What is written to an `AppendFile` is in a cache until a `sync` succeeds; a `sync` that fails changes nothing.
A power cut keeps what is on the disk and any first part of the cache, as where data reaches the disk in the order
in which it is written.
-/

set_option autoImplicit false

/-- What of a file is on the disk, and what is in the cache. -/
structure AppendFile (α : Type) where
  durable : List α
  cached : List α

/-- What a process does to it. -/
inductive DiskEvent (α : Type) where
  | write (data : List α)
  | sync (succeeds : Bool)

namespace AppendFile
variable {α : Type}

/-- The file as other processes see it. -/
def contents (f : AppendFile α) : List α := f.durable ++ f.cached

def step (f : AppendFile α) : DiskEvent α → AppendFile α
  | .write data => { f with cached := f.cached ++ data }
  | .sync true => ⟨f.contents, []⟩
  | .sync false => f

def after (f : AppendFile α) (events : List (DiskEvent α)) : AppendFile α := events.foldl step f

/-- What a power cut may leave: what is on the disk, and a first part of the cache. -/
def Leaves (f : AppendFile α) (left : List α) : Prop := f.durable <+: left ∧ left <+: f.contents

theorem after_append (f : AppendFile α) (events more : List (DiskEvent α)) :
    f.after (events ++ more) = (f.after events).after more := List.foldl_append

theorem step_durable (f : AppendFile α) (event : DiskEvent α) : f.durable <+: (f.step event).durable := by
  cases event with
  | write data => exact List.prefix_rfl
  | sync succeeds =>
    cases succeeds with
    | false => exact List.prefix_rfl
    | true => exact List.prefix_append _ _

/-- What is on the disk stays there. -/
theorem after_durable (f : AppendFile α) (events : List (DiskEvent α)) : f.durable <+: (f.after events).durable := by
  induction events generalizing f with
  | nil => exact List.prefix_rfl
  | cons event events ih => exact (f.step_durable event).trans (ih (f.step event))

end AppendFile
