/-
# Files

`handle_request`, `file_put` and `file_get` of `chord/server.py`: a request for a file goes from
the node asked to the node responsible for its name, in one try, and that node makes the file up
when it is first asked for it (`_ensure_file`).  A node that is asked for a file of its own
does not count the request, unlike one that is asked by another node.

`files_told` says what every request is answered, in a ring with right successors and whatever
requests and replies between the nodes are lost: the entry that the requests which
arrived have made (`entryOf`), the first of which has settled everything but the counts.

Requests come one after the other.  The request log and the counters of the dashboard are left out.
-/

import ChordInfra.Data.Routed

namespace ChordInfra
namespace Data

open Cyclic ChordInfra.Ring ChordInfra.Ring.Members
open Storage (Delivery strip)

/-! ### What a file is made of -/

/-- `name.rsplit(".", 1)[-1].lower()`.  No extension of the tables has a `k`, the only letter in
them that would be the lower case of a letter outside ASCII. -/
def extension (filename : String) : String :=
  if '.' ∈ filename.toList then
    String.ofList ((filename.toList.reverse.takeWhile (· ≠ '.')).reverse.map Char.toLower)
  else ""

/-- `EXT_LABELS`. -/
def extLabels : List (String × String) :=
  [("pdf", "document"), ("csv", "dataset"), ("bin", "binary"), ("yaml", "config"),
    ("gz", "archive"), ("zip", "archive"), ("pptx", "slides"), ("png", "image"), ("jpg", "image"),
    ("mp4", "video"), ("tar", "archive"), ("md", "text"), ("sql", "database"), ("json", "data"),
    ("txt", "text"), ("sh", "script"), ("parquet", "dataset")]

/-- `file_type`. -/
def fileType (filename : String) : String := (Dict.find (extension filename) extLabels).getD "file"

/-- `_FILE_SIZES`. -/
def fileSizes : List (String × ℕ × ℕ) :=
  [("pdf", 50000, 5000000), ("csv", 1000, 500000), ("bin", 500000, 100000000),
    ("yaml", 200, 10000), ("gz", 10000, 200000000), ("zip", 5000, 500000000),
    ("pptx", 100000, 20000000), ("png", 10000, 10000000), ("jpg", 50000, 8000000),
    ("mp4", 1000000, 2000000000), ("tar", 10000, 500000000), ("md", 500, 50000),
    ("sql", 1000, 10000000), ("json", 200, 5000000), ("txt", 500, 1000000), ("sh", 100, 50000),
    ("parquet", 50000, 500000000)]

/-- The sizes that a file may be given. -/
def sizeRange (filename : String) : ℕ × ℕ :=
  (Dict.find (extension filename) fileSizes).getD (1000, 10000000)

/-- The number of tenths of a quotient, to the nearest, and to the even one in the middle. -/
def tenths (b scale : ℕ) : ℕ :=
  if 2 * (10 * b % scale) < scale ∨ 2 * (10 * b % scale) = scale ∧ 10 * b / scale % 2 = 0 then
    10 * b / scale
  else 10 * b / scale + 1

/-- `f"{b:.1f}"` after the divisions. -/
def oneDecimal (b scale : ℕ) : String :=
  toString (tenths b scale / 10) ++ "." ++ toString (tenths b scale % 10)

/-- The loop of `_fmt_size` over the units. -/
def fmtSizeFrom (b scale : ℕ) : List String → String
  | [] => oneDecimal b scale ++ " TB"
  | unit :: units =>
    if b < 1024 * scale then oneDecimal b scale ++ " " ++ unit
    else fmtSizeFrom b (1024 * scale) units

/-- `_fmt_size`; the sizes are so small that dividing them by 1024 is exact. -/
def fmtSize (b : ℕ) : String := fmtSizeFrom b 1 ["B", "KB", "MB", "GB"]

/-- What a request draws and what it reads from the clock. -/
structure Chance where
  randint : ℕ × ℕ → ℕ
  createdAt : ℕ
  servedAt : ℕ

/-- The entry of a file. -/
structure FileEntry where
  filename : String
  fileType : String
  sizeBytes : ℕ
  sizeHuman : String
  createdAt : ℕ
  serveCount : ℕ
  storedAt : ℕ
  lastServed : Option ℕ
deriving DecidableEq, Repr

/-! ### The handlers -/

/-- The entry that `_ensure_file` makes. -/
def newFile (nodeId : ℕ) (filename : String) (c : Chance) : FileEntry where
  filename
  fileType := fileType filename
  sizeBytes := c.randint (sizeRange filename)
  sizeHuman := fmtSize (c.randint (sizeRange filename))
  createdAt := c.createdAt
  serveCount := 0
  storedAt := nodeId
  lastServed := none

/-- The files of a node, by name. -/
abbrev Files := Dict String FileEntry

/-- `_ensure_file`. -/
def ensureFile (nodeId : ℕ) (filename : String) (c : Chance) (files : Files) : FileEntry × Files :=
  match files.get filename with
  | some entry => (entry, files)
  | none => (newFile nodeId filename c, files.set filename (newFile nodeId filename c))

/-- An entry that is served once more. -/
def FileEntry.served (e : FileEntry) (c : Chance) : FileEntry :=
  { e with serveCount := e.serveCount + 1, lastServed := some c.servedAt }

/-- `file_put`. -/
def filePut (nodeId : ℕ) (filename : String) (c : Chance) (files : Files) : FileEntry × Files :=
  let (entry, files) := ensureFile nodeId filename c files
  (entry.served c, files.set filename (entry.served c))

/-- What a client asks of a node. -/
inductive FileOp (M : ℕ)
  /-- `POST /request`; `lost` and `delivery` say which forwards of the lookup raise, and what
  becomes of the request to the node responsible. -/
  | request (n : ChordNode M) (name : String) (lost : ℕ → Bool) (delivery : Delivery) (c : Chance)
  /-- `GET /files/<name>`. -/
  | get (n : ChordNode M) (name : String)

/-- What a client is answered. -/
inductive FileAnswer
  /-- The status 400. -/
  | nameless
  | served (filename : String) (keyId servedByNode : ℕ) (servedByAddr : String) (hops : ℕ)
      (content : Option FileEntry)
  | file (entry : FileEntry)
  /-- The status 404. -/
  | notFound
  /-- The lookup does not end. -/
  | stuck
deriving DecidableEq

/-- The file whose contents an answer tells. -/
def FileAnswer.tells : FileAnswer → Option (String × FileEntry)
  | served filename _ _ _ _ (some entry) => some (filename, entry)
  | _ => none

section Handlers

variable {M : ℕ} [NeZero M] (net : Network M) (sha1Id : String → ℕ) (fuel : ℕ)
  (deliver : String → String)

/-- `handle_request`: `deliver` is the name that a handler is passed of a name in a URL. -/
def handleRequest (n : ChordNode M) (name : String) (lost : ℕ → Bool) (delivery : Delivery)
    (c : Chance) (stores : String → Files) : FileAnswer × (String → Files) :=
  let filename := strip name
  if filename = "" then (.nameless, stores)
  else
    match n.findSuccessor net lost (sha1Id filename) fuel with
    | none => (.stuck, stores)
    | some responsible =>
      if responsible.id = n.nodeId then
        let (content, files) := ensureFile n.nodeId filename c (stores n.address)
        (.served filename (sha1Id filename) responsible.id n.address 1 (some content),
          Function.update stores n.address files)
      else
        let answer := FileAnswer.served filename (sha1Id filename) responsible.id
          responsible.address 2
        match net responsible.address with
        | none => (answer none, stores)
        | some m =>
          let (content, files) := filePut m.nodeId (deliver filename) c (stores m.address)
          match delivery with
          | .delivered => (answer (some content), Function.update stores m.address files)
          | .replyLost => (answer none, Function.update stores m.address files)
          | .lost => (answer none, stores)

/-- `file_get`. -/
def fileGet (n : ChordNode M) (name : String) (stores : String → Files) : FileAnswer :=
  match (stores n.address).get (deliver name) with
  | some entry => .file entry
  | none => .notFound

def FileOp.run (op : FileOp M) (stores : String → Files) : FileAnswer × (String → Files) :=
  match op with
  | request n name lost delivery c =>
    handleRequest net sha1Id fuel deliver n name lost delivery c stores
  | get n name => (fileGet deliver n name stores, stores)

/-- Requests, one after the other. -/
def runFiles : List (FileOp M) → (String → Files) → List FileAnswer × (String → Files)
  | [], stores => ([], stores)
  | op :: ops, stores =>
    let (answer, stores) := op.run net sha1Id fuel deliver stores
    let (answers, stores) := runFiles ops stores
    (answer :: answers, stores)

end Handlers

/-! ### What the requests make of a file -/

/-- The entry of a file after requests that arrived at its node, each from another node or from the
node itself: the first one has made it, and those from other nodes are counted. -/
def entryOf (nodeId : ℕ) (filename : String) (arrived : List (Bool × Chance)) : Option FileEntry :=
  arrived.head?.map fun first =>
    { newFile nodeId filename first.2 with
      serveCount := arrived.countP Prod.fst
      lastServed := (arrived.filter Prod.fst).getLast?.map fun x => x.2.servedAt }

section EntryOf

variable {nodeId : ℕ} {filename : String} {arrived : List (Bool × Chance)} {c : Chance}
  {files : Files}

theorem entryOf_append_self {e : FileEntry} (h : entryOf nodeId filename arrived = some e) :
    entryOf nodeId filename (arrived ++ [(false, c)]) = some e := by
  cases arrived with
  | nil => cases h
  | cons first rest =>
    cases h
    have hcount : (first :: (rest ++ [(false, c)])).countP Prod.fst =
        (first :: rest).countP Prod.fst := by
      rw [← List.cons_append, List.countP_append]
      rfl
    simp [entryOf, hcount]

theorem entryOf_append_other {e : FileEntry} (h : entryOf nodeId filename arrived = some e) :
    entryOf nodeId filename (arrived ++ [(true, c)]) = some (e.served c) := by
  cases arrived with
  | nil => cases h
  | cons first rest =>
    cases h
    have hcount : (first :: (rest ++ [(true, c)])).countP Prod.fst =
        (first :: rest).countP Prod.fst + 1 := by
      rw [← List.cons_append, List.countP_append]
      rfl
    simp [entryOf, FileEntry.served, hcount]

/-- **Every entry of a file is the same but for the counts**, and no request is uncounted. -/
theorem entryOf_append {l : List (Bool × Chance)} {e : FileEntry}
    (h : entryOf nodeId filename arrived = some e) :
    ∃ e', entryOf nodeId filename (arrived ++ l) = some e' ∧
      { e' with serveCount := e.serveCount, lastServed := e.lastServed } = e ∧
      e'.serveCount = e.serveCount + l.countP Prod.fst := by
  cases arrived with
  | nil => cases h
  | cons first rest =>
    cases h
    exact ⟨_, rfl, rfl, List.countP_append ..⟩

/-- A node that is asked for a file of its own. -/
theorem ensureFile_spec (hfiles : files.get filename = entryOf nodeId filename arrived) :
    entryOf nodeId filename (arrived ++ [(false, c)]) =
        some (ensureFile nodeId filename c files).1 ∧
      ∀ name, (ensureFile nodeId filename c files).2.get name =
        if name = filename then entryOf nodeId filename (arrived ++ [(false, c)])
        else files.get name := by
  unfold ensureFile
  cases arrived with
  | nil =>
    rw [show files.get filename = none from hfiles]
    exact ⟨rfl, fun name => files.get_set filename name _⟩
  | cons first rest =>
    obtain ⟨e, he⟩ : ∃ e, entryOf nodeId filename (first :: rest) = some e := ⟨_, rfl⟩
    rw [he] at hfiles
    rw [hfiles, entryOf_append_self he]
    refine ⟨rfl, fun name => ?_⟩
    split_ifs with hname
    · rw [hname]
      exact hfiles
    · rfl

/-- A node that is asked by another node. -/
theorem filePut_spec (hfiles : files.get filename = entryOf nodeId filename arrived) :
    entryOf nodeId filename (arrived ++ [(true, c)]) = some (filePut nodeId filename c files).1 ∧
      ∀ name, (filePut nodeId filename c files).2.get name =
        if name = filename then entryOf nodeId filename (arrived ++ [(true, c)])
        else files.get name := by
  obtain ⟨hentry, hfiles'⟩ := ensureFile_spec (c := c) hfiles
  have hself : entryOf nodeId filename (arrived ++ [(true, c)]) =
      some ((ensureFile nodeId filename c files).1.served c) := by
    cases arrived with
    | nil =>
      unfold ensureFile
      rw [show files.get filename = none from hfiles]
      rfl
    | cons first rest =>
      obtain ⟨e, he⟩ : ∃ e, entryOf nodeId filename (first :: rest) = some e := ⟨_, rfl⟩
      rw [entryOf_append_self he] at hentry
      rw [entryOf_append_other he, Option.some.inj hentry]
  refine ⟨hself, fun name => ?_⟩
  unfold filePut
  dsimp only
  rw [Dict.get_set, hfiles', hself]
  split_ifs <;> rfl

end EntryOf

/-! ### What clients are told -/

section Told

variable {M : ℕ}

namespace FileOp

/-- The node that is asked. -/
def node : FileOp M → ChordNode M
  | request n .. => n
  | get n _ => n

/-- The name of the file. -/
def filename : FileOp M → String
  | request _ name .. => strip name
  | get _ name => name

/-- No forward of the lookup is lost. -/
def Found : FileOp M → Prop
  | request _ _ lost _ _ => ∀ i, lost i = false
  | get .. => True

/-- How a request for a file arrives at the node responsible for it, if it does: from another
node or not. -/
def arrival (owner : ChordNode M) (filename : String) : FileOp M → Option (Bool × Chance)
  | request n name _ delivery c =>
    if strip name = filename ∧ filename ≠ "" then
      if n.nodeId = owner.nodeId then some (false, c)
      else if delivery = .lost then none
      else some (true, c)
    else none
  | get .. => none

/-- The entry of a file of the owner after requests. -/
def entryAfter (owner : ChordNode M) (filename : String) (ops : List (FileOp M)) :
    Option FileEntry :=
  entryOf owner.nodeId filename (ops.filterMap (arrival owner filename))

/-- What is answered after some requests, where `owner` is responsible for the file. -/
def told (sha1Id : String → ℕ) (owner : ChordNode M) (before : List (FileOp M)) :
    FileOp M → FileAnswer
  | request n name lost delivery c =>
    if strip name = "" then .nameless
    else
      .served (strip name) (sha1Id (strip name)) owner.nodeId owner.address
        (if n.nodeId = owner.nodeId then 1 else 2)
        (if n.nodeId = owner.nodeId ∨ delivery = .delivered then
          entryAfter owner (strip name) (before ++ [request n name lost delivery c])
        else none)
  | get n name =>
    if n.nodeId = owner.nodeId then
      (entryAfter owner name before).elim .notFound .file
    else .notFound

end FileOp

/-- The nodes have the files that the requests have made, each at the node responsible for it. -/
structure Made (r : Members M) (sha1Id : String → ℕ) (ops : List (FileOp M))
    (stores : String → Files) : Prop where
  owner : ∀ filename owner, r.FirstAt (sha1Id filename) owner →
    (stores owner.address).get filename = FileOp.entryAfter owner filename ops
  only : ∀ filename a, (∀ owner, r.FirstAt (sha1Id filename) owner → a ≠ owner.address) →
    (stores a).get filename = none

namespace FileOp

variable {owner : ChordNode M} {filename : String} {ops : List (FileOp M)} {op : FileOp M}

theorem arrival_of_ne (h : op.filename ≠ filename) : op.arrival owner filename = none := by
  cases op with
  | request n name lost delivery c => exact if_neg fun hname => h hname.1
  | get n name => rfl

theorem entryAfter_of_none (h : op.arrival owner filename = none) :
    entryAfter owner filename (ops ++ [op]) = entryAfter owner filename ops := by
  simp [entryAfter, List.filterMap_append, h]

theorem entryAfter_of_some {x : Bool × Chance} (h : op.arrival owner filename = some x) :
    entryAfter owner filename (ops ++ [op]) =
      entryOf owner.nodeId filename (ops.filterMap (arrival owner filename) ++ [x]) := by
  simp [entryAfter, List.filterMap_append, h]

end FileOp

variable [NeZero M] {r : Members M} {sha1Id : String → ℕ} {fuel : ℕ} {deliver : String → String}
  {ops : List (FileOp M)} {op : FileOp M} {stores : String → Files} {owner : ChordNode M}

omit [NeZero M] in
/-- A request that arrives nowhere. -/
theorem Made.same (h : Made r sha1Id ops stores)
    (hnone : ∀ filename owner, r.FirstAt (sha1Id filename) owner →
      op.arrival owner filename = none) : Made r sha1Id (ops ++ [op]) stores where
  owner filename owner howner := by
    rw [FileOp.entryAfter_of_none (hnone filename owner howner)]
    exact h.owner filename owner howner
  only := h.only

omit [NeZero M] in
/-- A request that arrives at the node responsible. -/
theorem Made.update (h : Made r sha1Id ops stores) (hk : sha1Id op.filename < 2 ^ M)
    (howner : r.FirstAt (sha1Id op.filename) owner) {files : Files}
    (hfiles : ∀ name, files.get name =
      if name = op.filename then FileOp.entryAfter owner op.filename (ops ++ [op])
      else (stores owner.address).get name) :
    Made r sha1Id (ops ++ [op]) (Function.update stores owner.address files) := by
  refine ⟨fun filename owner' howner' => ?_, fun filename a ha => ?_⟩
  · by_cases hname : filename = op.filename
    · subst hname
      obtain rfl := firstAt_unique hk howner' howner
      rw [Function.update_self, hfiles, if_pos rfl]
    · rw [FileOp.entryAfter_of_none (FileOp.arrival_of_ne (Ne.symm hname)),
        ← h.owner filename owner' howner']
      by_cases haddr : owner'.address = owner.address
      · rw [haddr, Function.update_self, hfiles, if_neg hname]
      · rw [Function.update_of_ne haddr]
  · by_cases haddr : a = owner.address
    · subst haddr
      have hname : filename ≠ op.filename := by
        rintro rfl
        exact ha owner howner rfl
      rw [Function.update_self, hfiles, if_neg hname]
      exact h.only filename _ ha
    · rw [Function.update_of_ne haddr]
      exact h.only filename a ha

/-- A question about a file changes nothing. -/
theorem Made.run_get {n : ChordNode M} {name : String} (hk : sha1Id name < 2 ^ M) (hn : n ∈ r.nodes)
    (hdeliver : deliver name = name) (howner : r.FirstAt (sha1Id name) owner)
    (h : Made r sha1Id ops stores) :
    ((FileOp.get n name).run r.net sha1Id fuel deliver stores).1 =
        (FileOp.get n name).told sha1Id owner ops ∧
      Made r sha1Id (ops ++ [.get n name])
        ((FileOp.get n name).run r.net sha1Id fuel deliver stores).2 := by
  refine ⟨?_, h.same fun _ _ _ => rfl⟩
  unfold FileOp.run FileOp.told fileGet
  dsimp only
  rw [hdeliver]
  by_cases hself : n.nodeId = owner.nodeId
  · obtain rfl := eq_of_nodeId hn howner.1 hself
    rw [if_pos rfl, h.owner name n howner]
    cases FileOp.entryAfter n name ops <;> rfl
  · rw [if_neg hself, h.only name n.address fun owner' howner' haddr => ?_]
    obtain rfl := firstAt_unique hk howner' howner
    have hsame : n = owner' := List.inj_on_of_nodup_map r.addresses_distinct hn howner.1 haddr
    exact hself (congrArg ChordNode.nodeId hsame)

/-- A request for a file is counted where it arrives. -/
theorem Made.run_request (hs : r.SuccessorsCorrect) (hfingers : r.FingersNameMembers)
    (hfuel : 2 ^ M < fuel) {n : ChordNode M} {name : String} {lost : ℕ → Bool} {delivery : Delivery}
    {c : Chance} (hk : sha1Id (strip name) < 2 ^ M) (hn : n ∈ r.nodes)
    (hkey : ∀ m ∈ r.nodes, m.nodeId ≠ sha1Id (strip name))
    (hfound : (FileOp.request n name lost delivery c).Found)
    (hdeliver : deliver (strip name) = strip name) (howner : r.FirstAt (sha1Id (strip name)) owner)
    (h : Made r sha1Id ops stores) :
    ((FileOp.request n name lost delivery c).run r.net sha1Id fuel deliver stores).1 =
        (FileOp.request n name lost delivery c).told sha1Id owner ops ∧
      Made r sha1Id (ops ++ [.request n name lost delivery c])
        ((FileOp.request n name lost delivery c).run r.net sha1Id fuel deliver stores).2 := by
  unfold FileOp.run FileOp.told handleRequest
  by_cases hname : strip name = ""
  · simp only [if_pos hname]
    refine ⟨trivial, h.same fun filename _ _ => if_neg ?_⟩
    rintro ⟨rfl, hne⟩
    exact hne hname
  simp only [if_neg hname]
  obtain ⟨m, hm, hfind⟩ := findSuccessor_of_ne hs hfingers hk hn (hkey n hn)
    ((arc_le (r.ids_lt n hn) hk).trans_lt hfuel)
  obtain rfl := firstAt_unique hk hm howner
  obtain rfl : lost = fun _ => false := funext hfound
  have hkop : sha1Id (FileOp.request n name (fun _ => false) delivery c).filename < 2 ^ M := hk
  have hfiles := h.owner (strip name) m howner
  have harrival : ∀ filename, strip name = filename →
      (FileOp.request n name (fun _ => false) delivery c).arrival m filename =
        if n.nodeId = m.nodeId then some (false, c)
        else if delivery = .lost then none else some (true, c) :=
    fun filename hsame => if_pos ⟨hsame, hsame ▸ hname⟩
  have hself := harrival (strip name) rfl
  simp only [hfind]
  by_cases hid : m.nodeId = n.nodeId
  · -- the node asked is responsible
    obtain rfl := eq_of_nodeId hm.1 hn hid
    rw [if_pos rfl] at hself
    obtain ⟨hentry, hget⟩ := ensureFile_spec (c := c) hfiles
    rw [← FileOp.entryAfter_of_some hself] at hentry hget
    simp only [show m.ref.id = m.nodeId from rfl, if_true, true_or, hentry]
    exact ⟨trivial, h.update hkop howner hget⟩
  · have hid' : ¬m.ref.id = n.nodeId := hid
    have hid'' : ¬n.nodeId = m.nodeId := fun he => hid he.symm
    rw [if_neg hid''] at hself
    rw [if_neg hid', show m.ref.address = m.address from rfl, net_address hm.1]
    dsimp only
    rw [hdeliver, if_neg hid'']
    cases delivery with
    | lost =>
      simp only [hid'', false_or, reduceCtorEq, if_false]
      refine ⟨rfl, h.same fun filename owner' howner' => ?_⟩
      by_cases hsame : strip name = filename
      · subst hsame
        obtain rfl := firstAt_unique hk howner' howner
        exact hself
      · exact FileOp.arrival_of_ne hsame
    | delivered =>
      obtain ⟨hentry, hget⟩ := filePut_spec (c := c) hfiles
      rw [← FileOp.entryAfter_of_some hself] at hentry hget
      simp only [or_true, if_true, hentry]
      exact ⟨rfl, h.update hkop howner hget⟩
    | replyLost =>
      obtain ⟨-, hget⟩ := filePut_spec (c := c) hfiles
      rw [← FileOp.entryAfter_of_some hself] at hget
      simp only [hid'', false_or, reduceCtorEq, if_false]
      exact ⟨rfl, h.update hkop howner hget⟩

/-- **One request.** -/
theorem Made.run (hs : r.SuccessorsCorrect) (hfingers : r.FingersNameMembers)
    (hfuel : 2 ^ M < fuel) (hk : sha1Id op.filename < 2 ^ M) (hn : op.node ∈ r.nodes)
    (hkey : ∀ m ∈ r.nodes, m.nodeId ≠ sha1Id op.filename) (hfound : op.Found)
    (hdeliver : deliver op.filename = op.filename) (howner : r.FirstAt (sha1Id op.filename) owner)
    (h : Made r sha1Id ops stores) :
    (op.run r.net sha1Id fuel deliver stores).1 = op.told sha1Id owner ops ∧
      Made r sha1Id (ops ++ [op]) (op.run r.net sha1Id fuel deliver stores).2 := by
  cases op with
  | get n name => exact h.run_get hk hn hdeliver howner
  | request n name lost delivery c =>
    exact h.run_request hs hfingers hfuel hk hn hkey hfound hdeliver howner

/-- Requests after others that have made the files there are. -/
theorem Made.runs (hs : r.SuccessorsCorrect) (hfingers : r.FingersNameMembers)
    (hfuel : 2 ^ M < fuel) (hsha : ∀ filename, sha1Id filename < 2 ^ M)
    (hops : ∀ op ∈ ops, op.node ∈ r.nodes ∧ (∀ m ∈ r.nodes, m.nodeId ≠ sha1Id op.filename) ∧
      op.Found ∧ deliver op.filename = op.filename) {before : List (FileOp M)}
    (h : Made r sha1Id before stores) :
    (∀ (i : ℕ) (op : FileOp M) (owner : ChordNode M), ops[i]? = some op →
      r.FirstAt (sha1Id op.filename) owner →
      (runFiles r.net sha1Id fuel deliver ops stores).1[i]? =
        some (op.told sha1Id owner (before ++ ops.take i))) ∧
      Made r sha1Id (before ++ ops) (runFiles r.net sha1Id fuel deliver ops stores).2 := by
  induction ops generalizing before stores with
  | nil =>
    rw [List.append_nil]
    exact ⟨fun i op owner hop => (by cases hop), h⟩
  | cons op ops ih =>
    obtain ⟨hn, hkey, hfound, hdeliver⟩ := hops op List.mem_cons_self
    have hone : ∀ owner, r.FirstAt (sha1Id op.filename) owner → _ := fun owner howner =>
      h.run hs hfingers hfuel (hsha op.filename) hn hkey hfound hdeliver howner
    obtain ⟨owner₀, howner₀⟩ := exists_firstAt r (sha1Id op.filename)
    obtain ⟨htold, hmade⟩ := ih (fun op hop => hops op (List.mem_cons_of_mem _ hop))
      (hone owner₀ howner₀).2
    refine ⟨fun i op' owner hop howner => ?_, ?_⟩
    · cases i with
      | zero =>
        obtain rfl : op = op' := Option.some.inj hop
        rw [List.take_zero, List.append_nil]
        exact congrArg some (hone owner howner).1
      | succ i =>
        have hrest := htold i op' owner hop howner
        rw [List.append_assoc] at hrest
        exact hrest
    · rw [List.append_assoc] at hmade
      exact hmade

theorem tells_served (filename address : String) (keyId nodeId hops : ℕ) (x : Option FileEntry) :
    (FileAnswer.served filename keyId nodeId address hops x).tells =
      x.map fun entry => (filename, entry) := by
  cases x <;> rfl

omit [NeZero M] in
/-- The entry that is told of a file is what the requests have made of it. -/
theorem FileOp.entry_of_told {before : List (FileOp M)} {filename : String} {e : FileEntry}
    (h : (op.told sha1Id owner before).tells = some (filename, e)) :
    op.filename = filename ∧ entryAfter owner filename (before ++ [op]) = some e := by
  cases op with
  | get n name =>
    unfold told at h
    dsimp only at h
    split_ifs at h
    · cases hentry : entryAfter owner name before <;> rw [hentry] at h <;> cases h
    · cases h
  | request n name lost delivery c =>
    unfold told at h
    dsimp only at h
    by_cases hname : strip name = ""
    · rw [if_pos hname] at h
      cases h
    · rw [if_neg hname, tells_served] at h
      obtain ⟨entry, hcontent, heq⟩ := Option.map_eq_some_iff.1 h
      cases heq
      refine ⟨rfl, ?_⟩
      split_ifs at hcontent
      exact hcontent

theorem length_runFiles (ops : List (FileOp M)) (stores : String → Files) :
    (runFiles r.net sha1Id fuel deliver ops stores).1.length = ops.length := by
  induction ops generalizing stores with
  | nil => rfl
  | cons op ops ih => exact congrArg (· + 1) (ih _)

/-- **What clients are told of files.**  In a ring with right successors, whatever requests for files
come to which members, one after the other, and whatever requests and replies between the nodes
are lost, as long as no forward of a lookup is: every client is answered with the entry that
the requests before it, and its own, have made at the node responsible; all clients that are
told of a file are told the same but for the counts, which never fall; and afterwards each node
has the files of the names that it is responsible for, and no others.  No name's id is that of
a member, and the names reach the nodes as they are (`deliver`). -/
theorem files_told (hs : r.SuccessorsCorrect) (hfingers : r.FingersNameMembers)
    (hfuel : 2 ^ M < fuel) (hsha : ∀ filename, sha1Id filename < 2 ^ M)
    (hops : ∀ op ∈ ops, op.node ∈ r.nodes ∧ (∀ m ∈ r.nodes, m.nodeId ≠ sha1Id op.filename) ∧
      op.Found ∧ deliver op.filename = op.filename) :
    let answers := (runFiles r.net sha1Id fuel deliver ops fun _ => .empty).1
    (∀ (i : ℕ) (op : FileOp M) (owner : ChordNode M), ops[i]? = some op →
      r.FirstAt (sha1Id op.filename) owner → answers[i]? = some (op.told sha1Id owner (ops.take i))) ∧
      (∀ (i j : ℕ) (filename : String) (e e' : FileEntry), i ≤ j →
        answers[i]?.bind FileAnswer.tells = some (filename, e) →
        answers[j]?.bind FileAnswer.tells = some (filename, e') →
        { e' with serveCount := e.serveCount, lastServed := e.lastServed } = e ∧
          e.serveCount ≤ e'.serveCount) ∧
      Made r sha1Id ops (runFiles r.net sha1Id fuel deliver ops fun _ => .empty).2 := by
  obtain ⟨htold, hmade⟩ := Made.runs hs hfingers hfuel hsha hops
    (show Made r sha1Id [] fun _ => .empty from ⟨fun _ _ _ => rfl, fun _ _ _ => rfl⟩)
  refine ⟨htold, ?_, hmade⟩
  intro i j filename e e' hij hi hj
  -- what is told of the file is told of its owner's entry
  obtain ⟨owner, howner⟩ := exists_firstAt r (sha1Id filename)
  have hentry : ∀ {i e}, (runFiles r.net sha1Id fuel deliver ops fun _ => .empty).1[i]?.bind
      FileAnswer.tells = some (filename, e) →
      FileOp.entryAfter owner filename (ops.take (i + 1)) = some e := by
    intro i e hi
    obtain ⟨answer, hanswer, htells⟩ := Option.bind_eq_some_iff.1 hi
    have hlt := (List.getElem?_eq_some_iff.1 hanswer).1
    rw [length_runFiles] at hlt
    have hop := List.getElem?_eq_getElem hlt
    obtain ⟨owner', howner'⟩ := exists_firstAt r (sha1Id (ops[i]).filename)
    rw [htold i _ owner' hop howner'] at hanswer
    obtain rfl := Option.some.inj hanswer
    obtain ⟨rfl, hafter⟩ := FileOp.entry_of_told htells
    obtain rfl := firstAt_unique (hsha _) howner' howner
    rw [List.take_add_one, hop]
    exact hafter
  have hfirst := hentry hi
  have hsecond := hentry hj
  obtain ⟨later, hlater⟩ : ∃ later, ops.take (j + 1) = ops.take (i + 1) ++ later :=
    ⟨_, (List.take_append_drop (i + 1) (ops.take (j + 1))).symm.trans (by
      rw [List.take_take, Nat.min_eq_left (by omega)])⟩
  unfold FileOp.entryAfter at hfirst hsecond
  rw [hlater, List.filterMap_append] at hsecond
  obtain ⟨e'', he'', hsame, hcount⟩ := entryOf_append (l := later.filterMap
    (FileOp.arrival owner filename)) hfirst
  rw [hsecond] at he''
  obtain rfl := Option.some.inj he''
  exact ⟨hsame, by omega⟩

open ThreeNodes

/-- A request for a report at a node. -/
def asks (n : ChordNode 8) (delivery : Delivery) : FileOp 8 :=
  .request n " report_q1.pdf" (fun _ => false) delivery ⟨Prod.fst, 5, 9⟩

/-- The reply of the first request is lost; the second one is that of the node responsible. -/
def askedThrice : List (FileOp 8) :=
  [asks a .replyLost, asks c .delivered, asks b .delivered, .get c "report_q1.pdf"]

/-- The hypotheses of `files_told` are satisfiable: in the ring `{10, 80, 150}`, where two of three
requests are counted. -/
theorem files_told_threeNodes :
    (asks b .delivered).told (fun _ => 100) c (askedThrice.take 2) =
        .served "report_q1.pdf" 100 150 "c" 2
          (some ⟨"report_q1.pdf", "document", 50000, "48.8 KB", 5, 2, 150, some 9⟩) ∧
      (runFiles ring.net (fun _ => 100) 257 id askedThrice fun _ => .empty).1[2]? =
        some ((asks b .delivered).told (fun _ => 100) c (askedThrice.take 2)) := by
  refine ⟨by decide +kernel, ?_⟩
  have hkey : ∀ m ∈ ring.nodes, m.nodeId ≠ 100 := forall_mem (by decide) (by decide) (by decide)
  refine (files_told successors fingers (by decide) (fun _ => by decide) fun op hop => ?_).1 2 _ c rfl
    owner
  have hnode : op.node ∈ ring.nodes := by
    simp only [askedThrice, List.mem_cons, List.not_mem_nil, or_false] at hop
    rcases hop with rfl | rfl | rfl | rfl <;> simp [FileOp.node, asks, ring]
  have hfound : op.Found := by
    simp only [askedThrice, List.mem_cons, List.not_mem_nil, or_false] at hop
    rcases hop with rfl | rfl | rfl | rfl <;> first | exact trivial | exact fun _ => rfl
  exact ⟨hnode, hkey, hfound, rfl⟩

end Told

end Data
end ChordInfra
