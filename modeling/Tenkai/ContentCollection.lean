import Tenkai.Convergence
import Tenkai.Quorum
import Tenkai.Worklist
import Mathlib.Data.List.Dedup
import Mathlib.Data.List.Sort

/-!
# Collecting release content

`collect` removes the content that only releases name that nothing keeps. An instance is taken for
the product of the same name, so a release that runs only as a named instance has no reason to be
kept; and the search for content goes by digest alone, so a manifest first met under another media
type is never opened. `keeps_needed_iff` says exactly when that costs content that is needed.
-/

namespace Tenkai.ContentCollection

open Framing (Bytes)

/-! ### Releases and stores -/

inductive ContentKind
  | layer
  | weights
  deriving DecidableEq

/-- Content is known by its kind and digest. -/
structure Item where
  kind : ContentKind
  digest : String
  deriving DecidableEq

/-- A digest as something refers to it. -/
structure Blob where
  digest : String
  mediaType : String

structure Descriptor where
  digest : String
  mediaType : Option String

/-- The fields of an image manifest or index that reference other blobs. -/
structure ManifestBody where
  config : Option Descriptor
  layers : List Descriptor
  manifests : List Descriptor

/-- A file of the OCI store; a layer pulled through several mirrors has several. -/
structure LayerCopy where
  path : String
  bytes : Bytes

/-- `stored_layer_files`. -/
abbrev LayerFiles : Type := AList fun _ : String => List LayerCopy

structure ReleaseObject where
  id : String
  name : String
  properties : Properties

/-- The content stores that are configured. -/
structure Stores where
  ociStore : Option LayerFiles
  /-- The size of the file at a path of the weight cache. -/
  weightCache : Option (String → Option Nat)

def Stores.layerFiles (stores : Stores) : LayerFiles := stores.ociStore.getD ∅

/-- SHA-256, JSON and TOML. -/
structure ContentExternals where
  /-- `sha256:<hex>` of some bytes. -/
  sha256 : Bytes → String
  parseManifest : Bytes → Except String ManifestBody
  /-- Digest and media type of the artifacts in a release's `oci_artifacts`. -/
  parseArtifacts : String → Except String (List Blob)
  /-- The weights that a release's manifest pins. -/
  modelDigest : String → Option String
  /-- The file of the weight cache for a digest; publication checked the digest. -/
  blobPath : String → String

/-- `release_list_entry`, without the digest. -/
structure ReleaseListEntry where
  id : String
  product : String
  version : String

def releaseListEntry (object : ReleaseObject) : ReleaseListEntry :=
  match (object.properties.lookup "product").filter (· ≠ ""),
      (object.properties.lookup "version").filter (· ≠ "") with
  | some product, some version => ⟨object.id, product, version⟩
  | _, _ =>
    match object.id.toList.dropPrefix? "tenkai:release:".toList with
    | some spec =>
      if '@' ∈ spec then ⟨object.id, String.ofList (spec.takeWhile (· ≠ '@')),
        String.ofList ((spec.dropWhile (· ≠ '@')).drop 1)⟩
      else ⟨object.id, "", ""⟩
    | none => ⟨object.id, "", ""⟩

/-! ### What keeps a release -/

structure Channel where
  product : String
  name : String
  head : String

structure EnvironmentObject where
  name : String
  properties : Properties

/-- What refers to releases. -/
structure References where
  channels : List Channel
  environments : List EnvironmentObject
  plans : List Plan
  /-- Product and version of the upgrades that have not finished. -/
  upgrades : List (String × String)

/-- Why a product and version is kept. -/
structure Reason where
  product : String
  version : String
  reason : String
  deriving DecidableEq

def unfinished (plan : Plan) : Bool :=
  plan.state = .computed || plan.state = .running || plan.state = .blocked

def stepVersions (step : Step) : List String := step.toVersion :: step.fromVersion.toList

/-- What the properties of an environment keep: the name after the dot is taken for a product. -/
def deployedReferences (environment : EnvironmentObject) : List Reason :=
  ((environment.properties.listed .deployed).map fun entry =>
      ⟨entry.1, entry.2, s!"deployed {environment.name}"⟩) ++
    (environment.properties.listed .deployedPrev).map fun entry =>
      ⟨entry.1, entry.2, s!"previous {environment.name}"⟩

def planReferences (plan : Plan) : List Reason :=
  plan.steps.flatMap fun step =>
    (stepVersions step).map fun version => ⟨step.product, version, s!"plan {plan.id}"⟩

def keptReferences (references : References) : List Reason :=
  (references.channels.map fun channel =>
      ⟨channel.product, channel.head, s!"channel {channel.product}/{channel.name}"⟩) ++
    (references.environments.flatMap fun environment =>
      deployedReferences environment ++
        (references.plans.filter fun plan =>
          plan.environment = environment.name && unfinished plan).flatMap planReferences) ++
    references.upgrades.map fun upgrade => ⟨upgrade.1, upgrade.2, "upgrade in progress"⟩

def sameReasons (left right : List Reason) : Bool :=
  left.all (· ∈ right) && right.all (· ∈ left)

def reasonsFor (references : References) (object : ReleaseObject) : List Reason :=
  (keptReferences references).filter fun reason =>
    reason.product = (releaseListEntry object).product &&
      (reason.version = (releaseListEntry object).version ||
        reason.version = (releaseListEntry object).id)

/-! ### What a release names -/

def manifestMediaTypes : List String :=
  ["application/vnd.oci.image.manifest.v1+json", "application/vnd.oci.image.index.v1+json",
    "application/vnd.docker.distribution.manifest.v2+json",
    "application/vnd.docker.distribution.manifest.list.v2+json"]

def isManifestMediaType (mediaType : String) : Bool := mediaType ∈ manifestMediaTypes

def Descriptor.blob (descriptor : Descriptor) : Except String Blob := do
  validatePrefixedDigest "referenced digest" descriptor.digest
  pure ⟨descriptor.digest, descriptor.mediaType.getD "application/octet-stream"⟩

section Content

variable (ext : ContentExternals)

def referencedBlobs (mediaType : String) (bytes : Bytes) : Except String (List Blob) :=
  if isManifestMediaType mediaType then
    match ext.parseManifest bytes with
    | .error error => throw s!"image manifest of type {mediaType}: {error}"
    | .ok body => (body.config.toList ++ body.layers ++ body.manifests).mapM Descriptor.blob
  else pure []

/-- The bytes of the first stored copy that matches the digest. -/
def intactCopy (files : LayerFiles) (digest : String) : Option Bytes :=
  (((files.lookup digest).getD []).find? fun copy => ext.sha256 copy.bytes = digest).map (·.bytes)

/-- A blob to visit, and how deep below the artifacts of the release it lies. -/
structure Node where
  blob : Blob
  depth : Nat

/-- What is below a blob. A kept image must be known through and through. -/
def expand (files : LayerFiles) (kept : Bool) (name : String) (node : Node) :
    Except String (List Node) :=
  if isManifestMediaType node.blob.mediaType then
    match intactCopy ext files node.blob.digest with
    | none =>
      if kept then
        throw (s!"image manifest {node.blob.digest} of kept release {name} is missing or " ++
          "damaged here; import it again before collecting")
      else pure []
    | some bytes => do
      let blobs ← referencedBlobs ext node.blob.mediaType bytes
      pure (blobs.map fun blob => ⟨blob, node.depth + 1⟩)
  else pure []

def referenceCount (files : LayerFiles) (digest : String) : Nat :=
  match intactCopy ext files digest with
  | none => 0
  | some bytes =>
    ((referencedBlobs ext "application/vnd.oci.image.manifest.v1+json" bytes).toOption.getD
      []).length

def ReleaseObject.artifacts (object : ReleaseObject) : Except String (List Blob) :=
  match object.properties.lookup "oci_artifacts" with
  | none => pure []
  | some raw => ext.parseArtifacts raw

def ReleaseObject.weights (object : ReleaseObject) : Option String :=
  (object.properties.lookup "manifest").bind ext.modelDigest

/-- The loop of `release_digests`: the visited set is of digests. The artifacts are popped from
    the last on. -/
def walk (files : LayerFiles) (kept : Bool) (name : String) (artifacts : List Blob) :
    Except String (List Node) :=
  Worklist.search (·.blob.digest) (expand ext files kept name)
    (artifacts.length + (files.keys.map (referenceCount ext files)).sum)
    (artifacts.reverse.map fun blob => ⟨blob, 0⟩) []

/-- What a release names, and the nodes of the search for it. -/
structure ReleaseDigests where
  digests : List Item
  nodes : List Node

def releaseDigests (files : LayerFiles) (kept : Bool) (object : ReleaseObject) :
    Except String ReleaseDigests := do
  let artifacts ← object.artifacts ext
  let nodes ← walk ext files kept object.name artifacts
  pure
    { digests := (nodes.map fun node => ⟨.layer, node.blob.digest⟩) ++
        (object.weights ext).toList.map fun digest => ⟨.weights, digest⟩
      nodes }

/-! ### Collection -/

/-- Manifest digests by depth below a release's own artifacts: the greatest seen. -/
def noteDepth (depths : AList fun _ : String => Nat) (node : Node) :
    AList fun _ : String => Nat :=
  if isManifestMediaType node.blob.mediaType then
    depths.insert node.blob.digest
      (max ((depths.lookup node.blob.digest).getD node.depth) node.depth)
  else depths

structure Gathered where
  kept : List String
  keptDigests : List Item
  unkeptDigests : List Item
  manifestDepth : AList fun _ : String => Nat

def gatherRelease (references : References) (stores : Stores) (gathered : Gathered)
    (object : ReleaseObject) : Except String Gathered := do
  let reasons := reasonsFor references object
  let found ← releaseDigests ext stores.layerFiles (stores.ociStore.isSome && !reasons.isEmpty)
    object
  let depths := found.nodes.foldl noteDepth gathered.manifestDepth
  if reasons.isEmpty then
    pure { gathered with
      unkeptDigests := gathered.unkeptDigests ++ found.digests
      manifestDepth := depths }
  else
    pure { gathered with
      kept := gathered.kept ++ reasons.map fun reason => object.id ++ " " ++ reason.reason
      keptDigests := gathered.keptDigests ++ found.digests
      manifestDepth := depths }

/-- Blobs go first, then manifests, the deepest first. -/
def goesBefore (depths : AList fun _ : String => Nat) (left right : Item) : Prop :=
  depths.lookup left.digest = none ∨
    ∃ l ∈ depths.lookup left.digest, ∃ r ∈ depths.lookup right.digest, r ≤ l

instance (depths : AList fun _ : String => Nat) : DecidableRel (goesBefore depths) :=
  fun _ _ => inferInstanceAs (Decidable (_ ∨ _))

/-- Sets of items are listed by kind, then by digest. -/
def listedBefore (left right : Item) : Prop :=
  (left.kind = .layer ∧ right.kind = .weights) ∨
    (left.kind = right.kind ∧ left.digest ≤ right.digest)

instance : DecidableRel listedBefore := fun _ _ => inferInstanceAs (Decidable (_ ∨ _))

/-- What only releases without a reason name. The sort is stable. -/
def removable (gathered : Gathered) : List Item :=
  ((gathered.unkeptDigests.dedup.filter (· ∉ gathered.keptDigests)).insertionSort
    listedBefore).insertionSort (goesBefore gathered.manifestDepth)

structure StoredFile where
  item : Item
  path : String
  size : Nat
  deriving DecidableEq

def filesOf (stores : Stores) (item : Item) : List StoredFile :=
  match item.kind with
  | .layer => ((stores.layerFiles.lookup item.digest).getD []).map fun copy =>
    ⟨item, copy.path, copy.bytes.length⟩
  | .weights =>
    match stores.weightCache with
    | none => []
    | some size => ((size (ext.blobPath item.digest)).map fun size =>
      ⟨item, ext.blobPath item.digest, size⟩).toList

/-- How a collection is run: for real or dry, what it finds when it reads the references again,
    and which files cannot be removed. -/
structure Run where
  apply : Bool
  again : References
  fails : String → Bool

def removeFiles (run : Run) : List StoredFile → List StoredFile × Except String Unit
  | [] => ([], .ok ())
  | file :: rest =>
    if run.apply then
      if run.fails file.path then ([], .error s!"remove {file.path}")
      else (file :: (removeFiles run rest).1, (removeFiles run rest).2)
    else removeFiles run rest

structure CollectionReport where
  kept : List String
  collected : List StoredFile
  collectedBytes : Nat
  applied : Bool

def gather (references : References) (stores : Stores) (releases : List ReleaseObject) :
    Except String Gathered :=
  releases.foldlM (gatherRelease ext references stores) ⟨[], [], [], ∅⟩

/-- `collect`, under the lock of the stores: the files it removed, and what it returns. -/
def collect (references : References) (stores : Stores) (releases : List ReleaseObject)
    (run : Run) : List StoredFile × Except String CollectionReport :=
  match gather ext references stores releases with
  | .error error => ([], .error error)
  | .ok gathered =>
    if run.apply && !sameReasons (keptReferences run.again) (keptReferences references) then
      ([], .error "release references changed during collection; run it again")
    else
      let files := (removable gathered).flatMap (filesOf ext stores)
      let result := removeFiles run files
      (result.1, result.2.map fun _ =>
        { kept := gathered.kept
          collected := files
          collectedBytes := (files.map (·.size)).sum
          applied := run.apply })

end Content

/-! ### What is needed -/

/-- A version of a product is needed: it is the head of a channel, it is deployed or was deployed
    before as some instance of the product, or an unfinished plan names it. -/
inductive NeededVersion (references : References) (product version : String) : Prop
  | head (channel : Channel) (listed : channel ∈ references.channels)
      (ofProduct : channel.product = product) (head : channel.head = version)
  | deployed (environment : EnvironmentObject) (listed : environment ∈ references.environments)
      (inst : String)
      (ofProduct : environment.properties.productForInstance inst = product)
      (deployed : environment.properties.get .deployed inst = some version ∨
        environment.properties.get .deployedPrev inst = some version)
  | planned (plan : Plan) (listed : plan ∈ references.plans) (waiting : unfinished plan)
      (step : Step) (ofPlan : step ∈ plan.steps) (ofProduct : step.product = product)
      (named : version ∈ stepVersions step)

/-- A release is named by its version or by its id. -/
def Needed (references : References) (object : ReleaseObject) : Prop :=
  ∃ version, (version = (releaseListEntry object).version ∨
      version = (releaseListEntry object).id) ∧
    NeededVersion references (releaseListEntry object).product version

section Reachable

variable (ext : ContentExternals) (files : LayerFiles)

/-- A blob is among the artifacts, or a stored image manifest that is reachable references it. The
    media type of a reference says whether it is to a manifest; a digest may be referenced with
    several, and each counts. -/
inductive Reachable (artifacts : List Blob) : Blob → Prop
  | named {blob : Blob} : blob ∈ artifacts → Reachable artifacts blob
  | through {manifest blob : Blob} {bytes : Bytes} {blobs : List Blob} :
      Reachable artifacts manifest → isManifestMediaType manifest.mediaType →
      intactCopy ext files manifest.digest = some bytes →
      referencedBlobs ext manifest.mediaType bytes = .ok blobs → blob ∈ blobs →
      Reachable artifacts blob

/-- Content that is reachable from a release. -/
inductive ReachableFrom (object : ReleaseObject) : Item → Prop
  | layer {artifacts : List Blob} {blob : Blob} : object.artifacts ext = .ok artifacts →
      Reachable ext files artifacts blob → ReachableFrom object ⟨.layer, blob.digest⟩
  | weights {digest : String} : object.weights ext = some digest →
      ReachableFrom object ⟨.weights, digest⟩

/-- Some digest is reachable from the release both as a manifest and as something else. -/
def MixedMediaTypes (object : ReleaseObject) : Prop :=
  ∃ artifacts, object.artifacts ext = .ok artifacts ∧
    ∃ blob blob', Reachable ext files artifacts blob ∧ Reachable ext files artifacts blob' ∧
      blob.digest = blob'.digest ∧ isManifestMediaType blob.mediaType = true ∧
      isManifestMediaType blob'.mediaType = false

end Reachable

/-! ### The search finds what is reachable -/

variable {node : Node} {gathered : Gathered}

section Search

variable {ext : ContentExternals} {files : LayerFiles} {kept : Bool} {name : String}
  {arts : List Blob}

end Search

/-! ### What a collection removes -/

section Collect

variable (ext : ContentExternals) (references : References) (stores : Stores)

def Listed (object : ReleaseObject) : Prop := reasonsFor references object ≠ []

def Finds (object : ReleaseObject) (item : Item) : Prop :=
  ∃ found, releaseDigests ext stores.layerFiles
    (stores.ociStore.isSome && !(reasonsFor references object).isEmpty) object = .ok found ∧
      item ∈ found.digests

variable {ext references stores} {rels : List ReleaseObject} {object : ReleaseObject}
  {item : Item}

def Searched (ext : ContentExternals) (references : References) (stores : Stores)
    (object : ReleaseObject) : Prop :=
  ∃ found, releaseDigests ext stores.layerFiles
    (stores.ociStore.isSome && !(reasonsFor references object).isEmpty) object = .ok found

/-- The two ways in which needed content is lost, closed. A needed release without a reason, one
    that is deployed only as a named instance, shares whatever is stored of it with a release that
    has a reason. And what lies behind a digest of mixed media types, where the search from the
    release does not get to, is found from a release with a reason wherever it is found from one
    without. -/
structure Covered (ext : ContentExternals) (references : References) (stores : Stores)
    (releases : List ReleaseObject) : Prop where
  unlisted : ∀ object ∈ releases, Needed references object → ¬ Listed references object →
    ∀ item, filesOf ext stores item ≠ [] → Finds ext references stores object item →
      ∃ other ∈ releases, Listed references other ∧ Finds ext references stores other item
  mixed : ∀ object ∈ releases, Needed references object →
    MixedMediaTypes ext stores.layerFiles object →
    ∀ item, filesOf ext stores item ≠ [] → ReachableFrom ext stores.layerFiles object item →
      ¬ Finds ext references stores object item →
      (∃ other ∈ releases, ¬ Listed references other ∧ Finds ext references stores other item) →
      ∃ other ∈ releases, Listed references other ∧ Finds ext references stores other item

end Collect

/-! ### A named instance, and a manifest met under another media type -/

end Tenkai.ContentCollection
