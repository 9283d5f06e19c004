import Clickstream.Conformance
import Clickstream.Proofs.Layout

namespace Clickstream

namespace Path

/-- The text of a path as seen from one node further up. The sign of the root makes way for the
segment and another sign. -/
def outward (segment : Segment) (text : String) : String :=
  match text.toList with
  | '$' :: below => "$" ++ segment.text ++ .ofList below
  | _ => "$" ++ segment.text ++ text

end Path

/-- Whether a value fits can be told from each node on its own. -/
theorem Conforms.fits {schema : Schema} {value : Value} (h : Conforms schema value) :
    Everywhere (misfit? · · = none) schema value := by
  induction h with
  | array _ ih => exact everywhere_array_iff.mpr ⟨rfl, ih⟩
  | map _ ih => exact everywhere_map_iff.mpr ⟨rfl, ih⟩
  | union found _ ih =>
    exact (everywhere_union_iff found).mpr ⟨if_pos (List.getElem?_eq_some_iff.mp found).1, ih⟩
  | record same _ ih => exact everywhere_record_iff.mpr ⟨if_pos same, ih⟩
  | enum inside => exact (everywhere_leaf_iff rfl).mpr (if_pos inside)
  | fixed => exact (everywhere_leaf_iff rfl).mpr (if_pos rfl)
  | _ => exact (everywhere_leaf_iff rfl).mpr rfl

theorem kind_eq_of_fits {schema : Schema} {value : Value} (h : misfit? schema value = none) :
    schema.kind = value.kind := by
  unfold misfit? at h
  split at h
  case h_5 => simpa using h
  all_goals rfl

theorem Conforms.of_fits {schema : Schema} {value : Value}
    (h : Everywhere (misfit? · · = none) schema value) : Conforms schema value := by
  induction value using Value.induction generalizing schema with
  | step value ih =>
    have root : misfit? schema value = none := h.root
    cases Paired.of_kind (kind_eq_of_fits root) with
    | null => exact .null
    | boolean flag => exact .boolean flag
    | int n => exact .int n
    | long n => exact .long n
    | float bits => exact .float bits
    | double bits => exact .double bits
    | bytes data => exact .bytes data
    | string text => exact .string text
    | array item items =>
      exact .array fun inner mem => ih inner (.item mem) ((everywhere_array_iff.mp h).2 inner mem)
    | map outer entries =>
      exact .map fun entry mem => ih _ (.entry mem) ((everywhere_map_iff.mp h).2 entry mem)
    | union branches branch inner =>
      have inside : branch.toNat < branches.length := by simpa [misfit?] using root
      have found := List.getElem?_eq_getElem inside
      exact .union found (ih inner (.branch _ _) ((everywhere_union_iff found).mp h).2)
    | enum name symbols symbol => exact .enum (by simpa [misfit?] using root)
    | fixed name size data =>
      obtain rfl : data.length = size := by simpa [misfit?] using root
      exact .fixed name data
    | record name fields values =>
      have same : fields.length = values.length := by simpa [misfit?] using root
      refine .record same fun pair mem => ?_
      exact ih _ (.field (List.of_mem_zip mem).2) ((everywhere_record_iff.mp h).2 pair mem)

namespace Writer

/-- A step that stops at this fault, or comes to its end if there is none. -/
def Ends (step : Writer Unbounded Unit) (fault : Option (Located Mismatch)) : Prop :=
  ∃ transcript : Transcript, step = transcript.play ∧ transcript.fault = fault

namespace Ends

theorem pure : Ends (pure ()) none := ⟨⟨[], none⟩, rfl, rfl⟩

theorem put (bytes : List UInt8) : Ends (put bytes) none :=
  ⟨⟨[bytes], none⟩, (bind_pure _).symm, rfl⟩

theorem refuse (mismatch : Mismatch) : Ends (refuse mismatch) (some (.here mismatch)) :=
  ⟨⟨[], some (.here mismatch)⟩, rfl, rfl⟩

variable {first second step : Writer Unbounded Unit} {fault other : Option (Located Mismatch)}

theorem bind (h : Ends first fault) (k : Ends second other) :
    Ends (first >>= fun _ => second) (fault.or other) := by
  obtain ⟨front, rfl, rfl⟩ := h
  obtain ⟨back, rfl, rfl⟩ := k
  refine ⟨front.followedBy back, (Transcript.play_followedBy _ _).symm, ?_⟩
  cases found : front.fault <;> simp [Transcript.followedBy, found]

theorem within (segment : Segment) (h : Ends step fault) :
    Ends (within segment step) (fault.map (Located.within segment)) := by
  obtain ⟨transcript, rfl, rfl⟩ := h
  exact ⟨transcript.within segment, (Transcript.play_within _ _).symm, rfl⟩

variable {schema : Schema} {value : Value} {below : List Node}

theorem fits (right : misfit? schema value = none) (h : Ends step (below.findSome? Node.fault?)) :
    Ends step ((⟨[], schema, value⟩ :: below).findSome? Node.fault?) := by
  have none : Node.fault? ⟨[], schema, value⟩ = none := by
    rw [Node.fault?, Node.misfit?, right]
    rfl
  rwa [List.findSome?_cons, none]

end Ends

end Writer

namespace Wire

open Datum Writer

/-- A name and a key with signs of paths in them. What stands behind the misfit is wrong too. -/
def signed : Schema × Value :=
  (.record "r" [("$.a[0]", .map (.array (.union [.null, .fixed "f" 2]))), ("b", .null)],
    .record [.map [("$<1>\"", .array [.union 0 .null, .union 1 (.fixed [7]), .null])],
      .boolean true])

end Wire

end Clickstream
