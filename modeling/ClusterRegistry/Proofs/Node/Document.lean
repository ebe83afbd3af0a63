import ClusterRegistry.Http.Exchange
import ClusterRegistry.Proofs.Json.Numeral
import ClusterRegistry.Proofs.Node.Fields
import ClusterRegistry.Proofs.Text.Utf8

/-!
# Reading back responses

A response is written as a document and read from its text as it was, but for the index, which is
not part of the document. That goes for trees of nodes of any shape that a reader may open.

* `Doc.levels`: how deep the containers of a document stand inside each other;
* `Node.InRange`, `Response.InRange`: numbers that fit their fields;
* `Node.fields`, `Node.ofFields?_fields`: the fields of a node, one by one;
* **`Node.ofDoc?_doc`**, `Node.mapM_docs`: nodes, by induction over their trees;
* **`Response.decode_text`**: responses, from a text and from the bytes of a body.
-/

namespace ClusterRegistry

open Json

/-! ## Levels -/

namespace Json.Doc

mutual

/-- The number of containers that stand inside each other, the document itself included. -/
def levels : Doc → Nat
  | .array items => itemLevels items + 1
  | .object fields => fieldLevels fields + 1
  | .null | .bool _ | .number _ | .string _ => 0

/-- The levels of the deepest item. -/
def itemLevels : List Doc → Nat
  | [] => 0
  | d :: r => max d.levels (itemLevels r)

/-- The levels of the deepest field. -/
def fieldLevels : List (Option String × Doc) → Nat
  | [] => 0
  | (_, d) :: r => max d.levels (fieldLevels r)

end

variable {items : List Doc} {fields : List (String × Doc)} {n : Nat}

theorem itemLevels_le : itemLevels items ≤ n ↔ ∀ d ∈ items, d.levels ≤ n := by
  induction items with
  | nil => simp [itemLevels]
  | cons d rest ih => rw [itemLevels, Nat.max_le, ih, List.forall_mem_cons]

theorem fieldLevels_le {fields : List (Option String × Doc)} :
    fieldLevels fields ≤ n ↔ ∀ p ∈ fields, p.2.levels ≤ n := by
  induction fields with
  | nil => simp [fieldLevels]
  | cons p rest ih =>
    obtain ⟨name, d⟩ := p
    rw [fieldLevels, Nat.max_le, ih, List.forall_mem_cons]

theorem levels_record_le :
    (record fields).levels ≤ n ↔ 0 < n ∧ ∀ p ∈ fields, p.2.levels ≤ n - 1 := by
  have hsucc : ∀ m, m + 1 ≤ n ↔ 0 < n ∧ m ≤ n - 1 := by omega
  rw [record, levels, hsucc, fieldLevels_le, List.forall_mem_map]

theorem levels_array_le :
    (array items).levels ≤ n ↔ 0 < n ∧ ∀ d ∈ items, d.levels ≤ n - 1 := by
  rw [levels, ← itemLevels_le]
  omega

end Json.Doc

theorem forall_optionField {α : Type} {name : String} {f : α → Doc} {o : Option α}
    {P : Doc → Prop} : (∀ p ∈ optionField name f o, P p.2) ↔ ∀ a ∈ o, P (f a) := by
  cases o <;> simp [optionField]

theorem forall_listField {name : String} {ds : List Doc} {P : Doc → Prop} :
    (∀ p ∈ listField name ds, P p.2) ↔ (ds ≠ [] → P (.array ds)) := by
  cases ds <;> simp [listField]

/-! ## Nodes -/

namespace Node

mutual

/-- The numbers of a node, and of all nodes in it, fit 64 bits. -/
def InRange : Node → Prop
  | ⟨_, _, _, nodes, ttl, _, createdIndex, modifiedIndex⟩ =>
    (∀ t ∈ ttl, t ∈ Bounds.int64) ∧ (createdIndex : Int) ∈ Bounds.nat64 ∧
      (modifiedIndex : Int) ∈ Bounds.nat64 ∧ AllInRange nodes

/-- The numbers of all nodes of a list fit 64 bits. -/
def AllInRange : List Node → Prop
  | [] => True
  | n :: rest => n.InRange ∧ AllInRange rest

end

/-- The fields that write a node, given the documents of the nodes in it. -/
def fields (n : Node) (docs : List Doc) : List (String × Doc) :=
  [("key", .str n.key)] ++ optionField "value" .str n.value ++ [("dir", .bool n.dir)] ++
  listField "nodes" docs ++ optionField "ttl" .int n.ttl ++
  optionField "expiration" .str n.expiration ++
  [("createdIndex", .int n.createdIndex), ("modifiedIndex", .int n.modifiedIndex)]

theorem doc_eq (n : Node) : n.doc = .record (n.fields (doc.docs n.nodes)) := by
  cases n
  rw [doc]
  rfl

section Fields

variable (n : Node) (docs : List Doc)

theorem fields_names : ((n.fields docs).map (·.1)).Sublist fieldNames := by
  simp only [fields, List.map_append]
  exact ((((((List.Sublist.refl ["key"]).append (optionField_names _ _ _)).append
    (List.Sublist.refl ["dir"])).append (listField_names _ _)).append
    (optionField_names _ _ _)).append (optionField_names _ _ _)).append
    (List.Sublist.refl ["createdIndex", "modifiedIndex"])

theorem record?_fields :
    (Doc.record (n.fields docs)).record? fieldNames = some (n.fields docs) :=
  Doc.record?_record (n.fields_names docs) (by decide) fun _ h => h

theorem forall_mem_fields {P : Doc → Prop} (str : ∀ s, P (.str s)) (bool : ∀ b, P (.bool b))
    (int : ∀ i, P (.int i)) :
    (∀ p ∈ n.fields docs, P p.2) ↔ (docs ≠ [] → P (.array docs)) := by
  simp only [fields, List.forall_mem_append, forall_optionField, forall_listField,
    List.forall_mem_cons]
  simp [str, bool, int]

/-- **A node is read from its fields, if the nodes in it are.** -/
theorem ofFields?_fields (inner : Doc → Option (List Node)) (ttl : ∀ t ∈ n.ttl, t ∈ Bounds.int64)
    (created : (n.createdIndex : Int) ∈ Bounds.nat64)
    (modified : (n.modifiedIndex : Int) ∈ Bounds.nat64) :
    ofFields? inner (.record (n.fields docs)) =
      (if docs = [] then some [] else inner (.array docs)).map fun nodes =>
        { n with nodes := nodes } := by
  have hkey : fieldD? (n.fields docs) "key" "" Doc.text? = some n.key := by
    simp [fieldD?, fields, Doc.text?, Doc.str]
  have hvalue : fieldD? (n.fields docs) "value" none (Doc.optional? Doc.text?) = some n.value := by
    rw [fieldD?_optionField (f := .str) (o := n.value)
      (by simp [fields, List.lookup_append, List.lookup_cons]) (by simp [Doc.str])]
    cases n.value <;> rfl
  have hdir : fieldD? (n.fields docs) "dir" false Doc.flag? = some n.dir := by
    simp [fieldD?, fields, List.lookup_append, List.lookup_cons, Doc.flag?]
  have hnodes : fieldD? (n.fields docs) "nodes" [] inner =
      if docs = [] then some [] else inner (.array docs) := by
    have hlook : (n.fields docs).lookup "nodes" = (listField "nodes" docs).lookup "nodes" := by
      simp [fields, List.lookup_append, List.lookup_cons]
    rw [fieldD?, hlook]
    cases docs <;> simp [listField]
  have httl : fieldD? (n.fields docs) "ttl" none (Doc.optional? Doc.int64?) = some n.ttl := by
    rw [fieldD?_optionField (f := .int) (o := n.ttl)
      (by simp [fields, List.lookup_append, List.lookup_cons]) (by simp [Doc.int])]
    cases ht : n.ttl with
    | none => rfl
    | some t => simp [Doc.int64?_int (ttl t ht)]
  have hexpiration : fieldD? (n.fields docs) "expiration" none (Doc.optional? Doc.text?) =
      some n.expiration := by
    rw [fieldD?_optionField (f := .str) (o := n.expiration)
      (by simp [fields, List.lookup_append, List.lookup_cons]) (by simp [Doc.str])]
    cases n.expiration <;> rfl
  have hcreated : fieldD? (n.fields docs) "createdIndex" 0 Doc.nat64? = some n.createdIndex := by
    simp [fieldD?, fields, List.lookup_append, List.lookup_cons, Doc.nat64?_int created]
  have hmodified : fieldD? (n.fields docs) "modifiedIndex" 0 Doc.nat64? = some n.modifiedIndex := by
    simp [fieldD?, fields, List.lookup_append, List.lookup_cons, Doc.nat64?_int modified]
  simp only [ofFields?, record?_fields, Option.bind_eq_bind, Option.bind_some, hkey, hvalue, hdir,
    hnodes, httl, hexpiration, hcreated, hmodified]
  cases (if docs = [] then some [] else inner (.array docs)) <;> rfl

end Fields

theorem docs_eq_nil {nodes : List Node} : doc.docs nodes = [] ↔ nodes = [] := by
  cases nodes <;> simp [doc.docs]

theorem levels_doc_le (n : Node) (levels : Nat) : n.doc.levels ≤ levels ↔
    0 < levels ∧ (n.nodes ≠ [] → 1 < levels ∧
      ∀ d ∈ doc.docs n.nodes, d.levels ≤ levels - 2) := by
  rw [doc_eq, Doc.levels_record_le, forall_mem_fields n (doc.docs n.nodes)
    (P := fun d => d.levels ≤ levels - 1) (fun _ => Nat.zero_le _) (fun _ => Nat.zero_le _)
    fun _ => Nat.zero_le _, Doc.levels_array_le, ne_eq, docs_eq_nil, Nat.sub_sub]
  refine and_congr_right fun h => imp_congr_right fun _ => and_congr_left' ?_
  omega

/-- A node is read back exactly if the nodes in it are, and if there is a level for it. -/
theorem ofDoc?_doc_of_nodes {n : Node} (h : n.InRange) (inner : ∀ levels,
      (doc.docs n.nodes).mapM (ofDoc? levels) =
        if ∀ d ∈ doc.docs n.nodes, d.levels ≤ levels then some n.nodes else none) (levels : Nat) :
    ofDoc? levels n.doc = if n.doc.levels ≤ levels then some n else none := by
  obtain ⟨key, value, dir, nodes, ttl, expiration, createdIndex, modifiedIndex⟩ := n
  obtain ⟨httl, hcreated, hmodified, -⟩ := h
  rw [if_congr (levels_doc_le _ _) rfl rfl, doc_eq]
  match levels with
  | 0 => rfl
  | 1 =>
    rw [ofDoc?, ofFields?_fields _ _ _ httl hcreated hmodified]
    cases nodes with
    | nil => rfl
    | cons n rest => simp [doc.docs]
  | levels + 2 =>
    rw [ofDoc?, ofFields?_fields _ _ _ httl hcreated hmodified]
    simp only [Doc.items?, Option.bind_some, inner, docs_eq_nil]
    cases nodes with
    | nil => rfl
    | cons n rest =>
      have hlevels : 1 < levels + 2 := by omega
      by_cases hall : ∀ d ∈ doc.docs (n :: rest), d.levels ≤ levels
      · simp [hlevels]
      · simp [hall, hlevels]

mutual

/-- **A node is read back exactly if all its containers may be opened.** -/
theorem ofDoc?_doc : ∀ n : Node, n.InRange → ∀ levels,
    ofDoc? levels n.doc = if n.doc.levels ≤ levels then some n else none
  | ⟨_, _, _, nodes, _, _, _, _⟩, h => ofDoc?_doc_of_nodes h (mapM_docs nodes h.2.2.2)

theorem mapM_docs : ∀ nodes : List Node, AllInRange nodes → ∀ levels,
    (doc.docs nodes).mapM (ofDoc? levels) =
      if ∀ d ∈ doc.docs nodes, d.levels ≤ levels then some nodes else none
  | [], _, _ => rfl
  | n :: rest, h, levels => by
    rw [doc.docs, List.mapM_cons, ofDoc?_doc n h.1, mapM_docs rest h.2]
    rw [if_congr List.forall_mem_cons rfl rfl]
    by_cases hn : n.doc.levels ≤ levels
    · by_cases hrest : ∀ d ∈ doc.docs rest, d.levels ≤ levels
      · rw [if_pos hn, if_pos hrest, if_pos ⟨hn, hrest⟩]
        rfl
      · rw [if_pos hn, if_neg hrest, if_neg (not_and_of_not_right _ hrest)]
        rfl
    · rw [if_neg hn, if_neg (not_and_of_not_left _ hn)]
      rfl

end

mutual

theorem doc_legible : ∀ n : Node, n.doc.Legible
  | ⟨key, value, dir, nodes, ttl, expiration, createdIndex, modifiedIndex⟩ => by
    rw [doc_eq]
    refine Doc.legible_record ((forall_mem_fields _ _ (fun _ => trivial) (fun _ => trivial)
      Doc.int_legible).mpr fun _ => ?_)
    exact docs_legible nodes

theorem docs_legible : ∀ nodes : List Node, Doc.ItemsLegible (doc.docs nodes)
  | [] => trivial
  | n :: rest => ⟨doc_legible n, docs_legible rest⟩

end

end Node

/-! ## Responses -/

namespace Response

variable (r : Response)

/-- All numbers of a response fit 64 bits. -/
structure InRange : Prop where
  node : r.node.InRange
  prevNode : ∀ n ∈ r.prevNode, n.InRange

/-- The response without the index that travels beside it. -/
def withoutIndex : Response := { r with index := 0 }

/-- The fields that write a response. -/
def fields : List (String × Doc) :=
  [("action", .str r.action.label), ("node", r.node.doc)] ++
    optionField "prevNode" Node.doc r.prevNode

theorem doc_eq : r.doc = .record r.fields := rfl

theorem record?_fields : (Doc.record r.fields).record? ["action", "node", "prevNode"] =
    some r.fields := by
  have hnames : (r.fields.map (·.1)).Sublist ["action", "node", "prevNode"] := by
    rw [fields, List.map_append]
    exact (List.Sublist.refl ["action", "node"]).append (optionField_names _ _ _)
  exact Doc.record?_record hnames (by decide) fun _ h => h

theorem levels_doc_le (levels : Nat) : r.doc.levels ≤ levels ↔
    0 < levels ∧ r.node.doc.levels ≤ levels - 1 ∧
      ∀ n ∈ r.prevNode, n.doc.levels ≤ levels - 1 := by
  rw [doc_eq, Doc.levels_record_le, fields, List.forall_mem_append, forall_optionField
    (P := fun d => d.levels ≤ levels - 1)]
  simp [Doc.str, Doc.levels]

theorem doc_legible : r.doc.Legible := by
  refine Doc.legible_record ?_
  rw [List.forall_mem_append]
  refine ⟨?_, forall_optionField.mpr fun n _ => n.doc_legible⟩
  simp [Doc.str, Doc.Legible, Node.doc_legible]

theorem word?_label (a : Action) : Doc.word? Action.words (.str a.label) = some a := by
  cases a <;> decide

variable {r}

/-- **A response is read back exactly if all its containers may be opened.** -/
theorem ofDoc?_doc (range : r.InRange) (index levels : Nat) : ofDoc? index levels r.doc =
    if r.doc.levels ≤ levels then some { r with index := index } else none := by
  have hnotNull : ∀ n : Node, n.doc ≠ .null := fun n => by
    rw [n.doc_eq, Doc.record]
    exact Doc.noConfusion
  have haction : field? r.fields "action" (Doc.word? Action.words) = some r.action :=
    word?_label r.action
  rw [if_congr (r.levels_doc_le levels) rfl rfl, doc_eq]
  cases levels with
  | zero => rfl
  | succ levels =>
    have hnode : fieldD? r.fields "node" {} (Node.ofDoc? levels) =
        if r.node.doc.levels ≤ levels then some r.node else none :=
      r.node.ofDoc?_doc range.node levels
    have hprev : fieldD? r.fields "prevNode" none (Doc.optional? (Node.ofDoc? levels)) =
        if ∀ n ∈ r.prevNode, n.doc.levels ≤ levels then some r.prevNode else none := by
      rw [fieldD?_optionField (f := Node.doc) (o := r.prevNode) (by simp [fields, List.lookup_cons])
        hnotNull]
      cases hn : r.prevNode with
      | none => simp
      | some n =>
        rw [Option.elim_some, n.ofDoc?_doc (range.prevNode n hn)]
        by_cases hle : n.doc.levels ≤ levels
        · simp [hle]
        · simp [hle]
    simp only [ofDoc?, record?_fields, Option.bind_eq_bind, Option.bind_some, haction, hnode,
      hprev, Nat.add_sub_cancel]
    by_cases hle : r.node.doc.levels ≤ levels
    · by_cases hall : ∀ n ∈ r.prevNode, n.doc.levels ≤ levels
      · rw [if_pos hle, if_pos hall, if_pos ⟨Nat.succ_pos _, hle, hall⟩]
        rfl
      · rw [if_pos hle, if_neg hall, if_neg (not_and_of_not_right _ (not_and_of_not_right _ hall))]
        rfl
    · rw [if_neg hle, if_neg (not_and_of_not_right _ (not_and_of_not_left _ hle))]
      rfl

/-- **A written response is read back.** Its text gives the response again, with the index 0, as
long as no more containers stand inside each other than a reader opens, and so does a body of its
bytes. What was read is written as the same text. -/
theorem decode_text (range : r.InRange) :
    (Doc.ofText? r.doc.text).bind (ofDoc? 0 Doc.maxLevels) =
        (if r.doc.levels ≤ Doc.maxLevels then some r.withoutIndex else none) ∧
      (r.doc.levels ≤ Doc.maxLevels → ∀ member status, 200 ≤ status → status < 300 →
        Http.decode member status none r.doc.text.toUTF8.data.toList = .ok r.withoutIndex) ∧
      r.withoutIndex.doc.text = r.doc.text := by
  have hread : (Doc.ofText? r.doc.text).bind (ofDoc? 0 Doc.maxLevels) =
      if r.doc.levels ≤ Doc.maxLevels then some r.withoutIndex else none := by
    rw [Doc.ofText?_text r.doc_legible, Option.bind_some, ofDoc?_doc range]
    rfl
  refine ⟨hread, fun hlevels member status hlow hhigh => ?_, rfl⟩
  rw [if_pos hlevels, Doc.ofText?] at hread
  simp only [Http.decode, Text.symbolsOfBytes_toUTF8, Option.map_none, Option.getD_none, hread,
    if_pos (And.intro hlow hhigh)]

/-- Two directories inside each other, texts that need escapes, and numbers at their bounds. -/
def bordering : Response where
  action := .compareAndSwap
  node :=
    { key := "/a\"b\\", dir := true, modifiedIndex := 18446744073709551615
      nodes := [{ key := "/a\"b\\/é", dir := true, createdIndex := 7
                  nodes := [{ value := some "\x00\n🦀", ttl := some (-9223372036854775808) }] },
                { key := "/a\"b\\/ü", value := some "" }] }
  prevNode := some { expiration := some "2017-10-20T13:31:28Z", ttl := some 9223372036854775807 }
  index := 12

theorem decode_text_bordering : bordering.InRange ∧ bordering.doc.levels = 6 ∧
    (Doc.ofText? bordering.doc.text).bind (ofDoc? 0 Doc.maxLevels) = some bordering.withoutIndex ∧
    Http.decode "http://node:4001" 200 none bordering.doc.text.toUTF8.data.toList =
      .ok bordering.withoutIndex := by
  have hrange : bordering.InRange := by
    constructor <;> simp [bordering, Node.InRange, Node.AllInRange] <;> decide
  have hlevels : bordering.doc.levels = 6 := by decide
  have hle : bordering.doc.levels ≤ Doc.maxLevels := by
    rw [hlevels]
    decide
  obtain ⟨hread, hdecode, -⟩ := decode_text hrange
  rw [if_pos hle] at hread
  exact ⟨hrange, hlevels, hread, hdecode hle _ _ (by decide) (by decide)⟩

end Response

end ClusterRegistry
