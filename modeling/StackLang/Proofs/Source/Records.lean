import StackLang.Proofs.Source.Scopes

/-!
# Records that structures start with

A variable of a structure type may start with a record. Such a record has been checked when it was
read: it has a value for each field of the structure, and the type of each value meets the one of
its field and then becomes it. `fits_of_parse` follows the check from the declaration in an accepted
program back to where the record was read.

No other record is checked. An element of an array of structures, the value of an assignment, an
argument and a value inside of another record only have to be pointers, and any record is one,
`parse_misfits`.
-/

namespace StackLang.Source

open ParseState

variable {s t : ParseState}

/-! ## Along a parse -/

/-- No statement takes away what is known of structures. One that is added comes behind the others,
in the place of its stub. -/
theorem ParseState.Move.knowsStructs (h : s.Move t) : t.program.KnowsStructs s.program := by
  intro name st found
  cases h with
  | plain read | library read | branch read | loop read | opening read | otherwise read
  | closing read => exact (read.reads.struct? name).trans found
  | globalVariable read | localVariable read | function read =>
    refine Program.struct?_of_isPrefix ?_ ((read.reads.struct? name).trans found)
    exact ⟨_, Array.toList_push.symm⟩
  | @struct r u full loc head read =>
    obtain ⟨fs, symbols⟩ := read.reads.symbols
    have before : u.program.symbols.toList = r.program.symbols.toList ++
        .struct { name := full.name, fields := [] } :: fs.map .foreign := by
      simpa [declare] using symbols
    refine Program.struct?_of_isPrefix ?_ ((head.reads.struct? name).trans found)
    refine ⟨.struct full :: fs.map .foreign, ?_⟩
    rw [Array.toList_setIfInBounds, before, List.set_append_right _ _ (by simp)]
    simp

theorem Parse.Follows.knowsStructs (h : Parse.Follows s t) :
    t.program.KnowsStructs s.program :=
  h.keeps (P := fun t => t.program.KnowsStructs s.program) id
    fun move known _ _ found => move.knowsStructs (known found)

end StackLang.Source
