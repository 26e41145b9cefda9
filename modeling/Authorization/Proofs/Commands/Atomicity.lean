import Authorization.Proofs.Commands.Edits

namespace Authorization

namespace Table

variable {κ ν : Type} [LT κ] [DecidableEq κ] [DecidableLT κ] [LE κ] [Std.LawfulOrderLT κ]
  [Std.IsLinearOrder κ] {t : Table κ ν} {k : κ} {v : ν}

end Table

namespace OrderedSet

variable {α : Type} [LT α] [LE α] [Std.LawfulOrderLT α] [Std.IsLinearOrder α] [DecidableLT α]
  {s : OrderedSet α} {a : α}

end OrderedSet

namespace Directory

variable {d after : Directory} {change : Edit}

section Edited

variable (up : d.available = true)

end Edited

-- The last identifier is on record, and the first one is what would come next.
example : ((empty.insertRole ⟨⟨Int64.minValue⟩, ⟨3⟩, "", "", .empty, false⟩).insertRole
    ⟨⟨Int64.maxValue⟩, ⟨3⟩, "", "", .empty, false⟩).createRole ⟨⟨3⟩, "", "", ["y"]⟩ =
      .error (.unavailable .counterOverflow) := rfl

end Directory

end Authorization
