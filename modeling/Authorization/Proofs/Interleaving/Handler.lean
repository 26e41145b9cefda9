import Authorization.Proofs.Interleaving.Evidence

namespace Authorization

namespace World

variable {ι : Type} [DecidableEq ι] {w : World ι} {moves : Nat → Move ι} {i : ι}

end World

end Authorization
