import GraphIndex.CommandLine.Run
import GraphIndex.Proofs.Engine.Paging
import GraphIndex.Proofs.Query.Tables

/-!
# The page size of a command that gives none

A query may be given as a text or as JSON. Without a limit, the text has the page size that is built
into the language (`Query.limit_of_ofText`), and the JSON that of the settings
(`CommandLine.queryOfJson_eq_ok`). `CommandLine.query_forms_agree` says that both forms of every
query have the same answer just where the settings keep the usual size.
-/

namespace GraphIndex

/-! ### Queries without a limit -/

/-- The count in the limit clause of a query text, if there is one. -/
def Language.limitClause? (text : String) : Option Int64 :=
  match header (Text.trimList text.toList) with
  | .error _ => none
  | .ok (_, s) =>
    let (_, s) := optional wherePart s
    let (_, s) := optional orderPart s
    (optional (countPart "limit") s).1

namespace Query

variable {q : Query} {s t : String}

theorem limit_of_ofText (h : ofText t = .ok q) :
    q.limit = (Language.limitClause? t).getD defaultLimit := by
  unfold ofText Language.query at h
  unfold Language.limitClause?
  cases hheader : Language.header (Text.trimList t.toList) with
  | error rest =>
    rw [hheader] at h
    exact absurd h (by rintro ⟨⟩)
  | ok r =>
    simp only [hheader, bind, Except.bind] at h
    split at h
    · next hquery => exact absurd hquery (by rintro ⟨⟩)
    · next hquery =>
      obtain ⟨rfl, -⟩ := Prod.mk.inj (Except.ok.inj hquery)
      split at h
      · obtain rfl := Except.ok.inj h
        rfl
      · exact absurd h (by rintro ⟨⟩)

/-- Whether a text is the JSON of a query without its limit, with the members of each object in any
order. -/
def IsGivenWithoutLimit (q : Query) (s : String) : Prop :=
  ∃ j, Json.read? s = some j ∧ j.sorted = (q.toJson.without "limit").sorted

end Query

theorem Json.MembersReadBack.filter {ms : List (String × Json)} (h : MembersReadBack ms)
    (p : String × Json → Bool) : MembersReadBack (ms.filter p) := by
  induction ms with
  | nil => exact h
  | cons m ms ih =>
    rw [List.filter_cons]
    split
    · exact ⟨h.1, ih h.2⟩
    · exact ih h.2

/-- The text of a query without its limit is such a text, if the values of the query read back. -/
theorem Query.isGivenWithoutLimit_write {q : Query} (h : Entry.AllReadBack q.conditions)
    (hdepth : (q.toJson.without "limit").nesting ≤ Json.depthLimit) :
    q.IsGivenWithoutLimit (q.toJson.without "limit").write := by
  have hmembers : (q.toJson.without "limit").ReadsBack :=
    Json.MembersReadBack.filter (Query.readsBack_toJson h) _
  refine ⟨_, ?_, rfl⟩
  unfold Json.read? Json.readWithin?
  rw [Json.scanWithin_write hmembers hdepth]
  rfl

namespace CommandLine

/-! ### The limit of each form -/

/-- The two forms of a query without a limit clause: its text, and its JSON without the limit. -/
def AreFormsWithoutLimit (t s : String) : Prop :=
  ∃ q, Query.ofText t = .ok q ∧ Language.limitClause? t = none ∧ q.IsGivenWithoutLimit s

/-- JSON without a limit gets that of the settings. -/
theorem queryOfJson_eq_ok {q : Query} {s : String} (settings : Settings)
    (h : q.IsGivenWithoutLimit s) :
    queryOfJson settings s = .ok { q with limit := settings.queryLimit } := by
  obtain ⟨j, hread, hsorted⟩ := h
  rw [q.sorted_without_limit] at hsorted
  have hdecode := q.decode_enter_limit settings.queryLimit
  -- The conditions are a list, so that none of them is in short form.
  have hwhere : q.tableWithoutLimit.lookup "where"
      = some (.array (Json.sortedItems (Entry.listToJson q.conditions))) := rfl
  have hlimit : (q.tableWithoutLimit.lookup "limit").isSome = false := rfl
  unfold queryOfJson
  simp only [hread, pure_bind, hsorted, hwhere, Option.isSome_none, Bool.false_eq_true, if_false,
    hlimit, hdecode]
  rfl

variable {m : Machine} {settings : Settings} {path : String} {db : Database} {s t : String}

theorem queryOfSource_text (settings : Settings) (t : String) :
    queryOfSource settings (.text t) = (Query.ofText t).mapError .request :=
  rfl

theorem queryOfSource_json (settings : Settings) (s : String) :
    queryOfSource settings (.json s) = queryOfJson settings s :=
  rfl

/-- With the usual page size both forms are one query. -/
theorem queryOfSource_eq (h : AreFormsWithoutLimit t s)
    (hlimit : settings.queryLimit = defaultLimit) :
    queryOfSource settings (.text t) = queryOfSource settings (.json s) := by
  obtain ⟨q, htext, hclause, hjson⟩ := h
  have hq : q.limit = defaultLimit := by rw [Query.limit_of_ofText htext, hclause]; rfl
  rw [queryOfSource_text, htext, queryOfSource_json, queryOfJson_eq_ok settings hjson, hlimit, ← hq]
  rfl

theorem answer_query (m : Machine) (settings : Settings) (path : String) (db : Database)
    (source : QuerySource) : answer m settings path db (.query source) = do
      let q ← queryOfSource settings source
      let page ← (q.run db db.fieldResolver m.now).mapError .request
      return (page.toJson, none) :=
  rfl

theorem answer_eq (h : AreFormsWithoutLimit t s) (hlimit : settings.queryLimit = defaultLimit) :
    answer m settings path db (.query (.text t))
      = answer m settings path db (.query (.json s)) := by
  rw [answer_query, answer_query, queryOfSource_eq h hlimit]

theorem answer_eq_ok_iff {source : QuerySource} {q : Query} {j : Json}
    (h : queryOfSource settings source = .ok q) :
    answer m settings path db (.query source) = .ok (j, none) ↔
      ∃ page, q.run db db.fieldResolver m.now = .ok page ∧ page.toJson = j := by
  rw [answer_query]
  simp only [bind_eq_ok_iff, mapError_eq_ok_iff, h, Except.ok.injEq, exists_eq_left']
  refine exists_congr fun page => and_congr_right fun _ => ?_
  exact ⟨fun hpure => congrArg Prod.fst (Except.ok.inj hpure), fun hj => by rw [hj]; rfl⟩

/-! ### All nodes -/

/-- All nodes, with a page size of its own. -/
def everything (limit : Int64) : Query := { Query.forTarget anyNode with limit := limit }

/-- The statement for all nodes. -/
def everythingStatement (limit : Int64) : PageStatement :=
  ⟨⟨.empty, []⟩, .column .created, true, limit, 0⟩

theorem plan_everything {limit : Int64} (hlimit : 1 ≤ limit) (now : Int) :
    (everything limit).plan now = .ok (everythingStatement limit) := by
  have htarget : checkTarget anyNode = .ok () := rfl
  have hoffset : ¬ (0 : Int64) < 0 := by decide
  have hcheck : (everything limit).check = .ok () :=
    Query.check_eq_ok_iff.mpr ⟨htarget, if_neg (Int64.not_lt.mpr hlimit), hoffset⟩
  have hterm : SortTerm.ofField "created" = .ok (.column .created) := rfl
  have hstatement : (everything limit).statement = .ok (everythingStatement limit) :=
    Query.statement_eq_ok_iff.mpr ⟨rfl, hterm, rfl, rfl, rfl⟩
  exact Query.plan_eq_ok_iff.mpr ⟨hcheck, everything limit, rfl, hstatement⟩

theorem isAccepted_everything (limit : Int64) :
    (Statement.page (everythingStatement limit)).IsAccepted := by
  refine ⟨⟨?_, ?_, Nat.zero_le _, ?_⟩, rfl⟩
  · show 1 ≤ tableLimit
    decide
  · show 2 ≤ bindingLimit
    decide
  · show 6 ≤ stackLimit
    decide

theorem run_everything {store : Store} {limit : Int64} (hlimit : 1 ≤ limit) {ns : List Node}
    (hns : Node.ofRows ((everythingStatement limit).page store) = .ok ns) (source : FieldSource)
    (now : Int) :
    (everything limit).run ⟨some store⟩ source now = .ok (Page.ofNodes limit ns) := by
  have hstore : (⟨some store⟩ : Database).store = .ok store := rfl
  have hread : Query.read ⟨some store⟩ (everythingStatement limit) = .ok ns := by
    unfold Query.read
    rw [Query.storeFor_of_isAccepted hstore (isAccepted_everything limit)]
    exact hns
  unfold Query.run
  rw [plan_everything hlimit now]
  show (Query.read _ _ >>= _) = _
  rw [hread]
  rfl

/-- The page of all nodes is as long as the limit and the store allow. -/
theorem exists_run_everything {store : Store} (htyped : store.WellTyped) {limit : Int64}
    (hlimit : 1 ≤ limit) (source : FieldSource) (now : Int) :
    ∃ page, (everything limit).run ⟨some store⟩ source now = .ok page ∧
      page.nodes.length = min limit.toInt.toNat store.nodes.length := by
  have hselection : Selection.of anyNode [] = .ok ⟨.empty, []⟩ := rfl
  -- Nothing is asked, so that the statement has the nodes of the store, in some order.
  have hperm : ((everythingStatement limit).nodes store).Perm store.nodes := by
    refine (List.perm_ext_iff_of_nodup (PageStatement.nodup_nodes _ _) htyped.keyed.nodup).mpr
      fun r => PageStatement.mem_nodes.trans ?_
    show r ∈ Selection.nodes store ⟨.empty, []⟩ ↔ _
    rw [Selection.mem_nodes_iff htyped.keyed.uniqueIds hselection]
    exact ⟨fun h => h.1, fun hr => ⟨hr, rfl, fun _ ht => absurd ht List.not_mem_nil⟩⟩
  have hrows : ∀ r ∈ (everythingStatement limit).page store, r ∈ store.nodes := fun r hr =>
    PageStatement.mem_store_of_mem_nodes (List.mem_of_mem_drop (List.mem_of_mem_take hr))
  obtain ⟨ns, hns⟩ := Node.exists_ofRows htyped hrows
  refine ⟨_, run_everything hlimit hns source now, (Node.length_of_ofRows hns).trans ?_⟩
  unfold PageStatement.page
  rw [List.length_take, List.length_drop, hperm.length_eq]
  rfl

/-! ### A store with more nodes than a page -/

/-- A store with a number of nodes that differ in their ids. -/
def crowd (n : Nat) : Store where
  nodes := (List.range n).map fun i =>
    ⟨some (.ofList (List.replicate i 'n')), none, none, none, .integer 0, .null, .null⟩
  tags := []
  fields := []

theorem length_crowd (n : Nat) : (crowd n).nodes.length = n := by
  unfold crowd
  rw [List.length_map, List.length_range]

theorem wellTyped_crowd {n : Nat} (h : n < 2 ^ 63) : (crowd n).WellTyped where
  keyed := by
    refine ⟨fun r hr => ?_, ?_⟩
    · obtain ⟨i, -, rfl⟩ := List.mem_map.mp hr
      rfl
    · show (((List.range n).map _).map _).Nodup
      rw [List.map_map]
      refine List.nodup_range.map fun i j hij => ?_
      have hlist := String.ofList_injective (Option.some.inj hij)
      simpa using congrArg List.length hlist
  dates := by
    intro r hr k hk
    obtain ⟨i, -, rfl⟩ := List.mem_map.mp hr
    cases k <;> trivial
  size := by rwa [length_crowd]

/-! ### Both forms -/

theorem ofText_everything : Query.ofText "find *" = .ok (everything defaultLimit) := rfl

/-- The JSON of all nodes without a limit. -/
def everythingJson : String := ((everything defaultLimit).toJson.without "limit").write

theorem areFormsWithoutLimit_everything : AreFormsWithoutLimit "find *" everythingJson :=
  ⟨_, ofText_everything, by decide +kernel,
    Query.isGivenWithoutLimit_write trivial (by decide +kernel)⟩

theorem queryOfSource_everything (settings : Settings) :
    queryOfSource settings (.text "find *") = .ok (everything defaultLimit) ∧
    queryOfSource settings (.json everythingJson) = .ok (everything settings.queryLimit) := by
  obtain ⟨q, htext, -, hjson⟩ := areFormsWithoutLimit_everything
  rw [ofText_everything] at htext
  obtain rfl := Except.ok.inj htext
  constructor
  · rw [queryOfSource_text, ofText_everything]
    rfl
  · rw [queryOfSource_json, queryOfJson_eq_ok settings hjson]
    rfl

theorem one_le_of_run {limit : Int64} {now : Int} {page : Page} {source : FieldSource}
    (h : (everything limit).run db source now = .ok page) : 1 ≤ limit := by
  unfold Query.run at h
  obtain ⟨_, hplan, -⟩ := bind_eq_ok_iff.mp h
  have hcheck : checkLimit limit = .ok () :=
    (Query.check_eq_ok_iff.mp (Query.plan_eq_ok_iff.mp hplan).1).2.1
  by_contra hlimit
  unfold checkLimit at hcheck
  rw [if_pos (Int64.not_le.mp hlimit)] at hcheck
  exact absurd hcheck (by rintro ⟨⟩)

theorem length_eq_of_toJson_eq {p p' : Page} (h : p.toJson = p'.toJson) :
    p.nodes.length = p'.nodes.length := by
  have hmembers := Json.object.inj h
  simp only [List.cons_append, List.cons.injEq, Prod.mk.injEq, Json.array.injEq] at hmembers
  have hlength := congrArg List.length hmembers.1.2
  rwa [List.length_map, List.length_map] at hlength

/-- A crowd of one node more than a page tells the usual page size from any other. -/
theorem queryLimit_eq_of_answer_eq {n : Nat} (hn : n < 2 ^ 63) (hpage : defaultLimit.toInt < n)
    (h : answer m settings path ⟨some (crowd n)⟩ (.query (.text "find *"))
      = answer m settings path ⟨some (crowd n)⟩ (.query (.json everythingJson))) :
    settings.queryLimit = defaultLimit := by
  obtain ⟨htext, hjson⟩ := queryOfSource_everything settings
  have htyped := wellTyped_crowd hn
  have hdefault : 1 ≤ defaultLimit := by decide
  -- The text fills a page, and the JSON has as many nodes as the settings allow.
  obtain ⟨page, hrun, hlength⟩ := exists_run_everything htyped hdefault _ m.now
  rw [(answer_eq_ok_iff htext).mpr ⟨page, hrun, rfl⟩] at h
  obtain ⟨page', hrun', hsame⟩ := (answer_eq_ok_iff hjson).mp h.symm
  have hlimit := one_le_of_run hrun'
  obtain ⟨page'', hrun'', hlength'⟩ := exists_run_everything htyped hlimit _ m.now
  obtain rfl := Except.ok.inj (hrun'.symm.trans hrun'')
  rw [length_eq_of_toJson_eq hsame, hlength, length_crowd] at hlength'
  have hone : (1 : Int64).toInt = 1 := rfl
  rw [Int64.le_iff_toInt_le, hone] at hlimit hdefault
  exact Int64.toInt_inj.mp (by omega)

/-! ### Command lines -/

/-- Two commands that always have the same answer are carried out alike. -/
theorem execute_eq {m : Machine} {database config : Option String} {pretty : Bool} {c c' : Command}
    (hc : c ≠ .config) (hc' : c' ≠ .config)
    (h : ∀ settings, settingsFor m config = .ok settings → ∀ path db,
      answer m settings path db c = answer m settings path db c') :
    execute m ⟨c, database, config, pretty⟩ = execute m ⟨c', database, config, pretty⟩ := by
  unfold execute
  cases hsettings : settingsFor m config with
  | error fault => rfl
  | ok settings =>
    simp only [bind, Except.bind, if_neg hc, if_neg hc', h settings hsettings]
    rfl

theorem run_of_execute {m : Machine} {arguments : List String} {i : Invocation} {outcome : Outcome}
    (hread : read arguments = .ok i) (h : execute m i = .ok outcome) :
    run m arguments = outcome := by
  unfold run
  simp only [hread, h]

theorem run_eq_of_execute_eq {m : Machine} {a b : List String} {i i' : Invocation}
    (ha : read a = .ok i) (hb : read b = .ok i') (h : execute m i = execute m i') :
    run m a = run m b := by
  unfold run
  simp only [ha, hb, h]

/-- What is printed for a page. -/
theorem run_of_page {m : Machine} {arguments : List String} {source : QuerySource}
    {database : String} {settings : Settings} {q : Query} {db : Database} {page : Page}
    (hread : read arguments = .ok ⟨.query source, database, none, false⟩)
    (hsettings : settingsFor m none = .ok settings)
    (hdb : m.folder.openDatabase database = .ok db)
    (hsource : queryOfSource settings source = .ok q)
    (hrun : q.run db db.fieldResolver m.now = .ok page) :
    run m arguments = .success (page.toJson.write ++ "\n") := by
  have hanswer : ∀ path, answer m settings path db (.query source) = .ok (page.toJson, none) :=
    fun path => (answer_eq_ok_iff hsource).mpr ⟨page, hrun, rfl⟩
  refine run_of_execute hread ?_
  unfold execute databaseFor
  simp only [bind, Except.bind, hsettings, reduceCtorEq, if_false, Option.getD_some, hdb,
    Except.mapError, hanswer]
  rfl

/-! ### Two nodes -/

/-- A machine with a file of settings and a database with two nodes. -/
def sampleMachine (settings : String) : Machine where
  folder := ⟨[(["graphdex.toml"], .text settings), (["index.db"], .database ⟨some sampleStore⟩)]⟩
  home := "/home/user"
  environment := ⟨none, none, none⟩
  now := 0

/-- All nodes, asked for in the query language. -/
def textArguments : List String := ["--db", "index.db", "query", "find *"]

/-- All nodes, asked for in JSON. -/
def jsonArguments : List String := ["--db", "index.db", "query", "--json", everythingJson]

theorem read_textArguments :
    read textArguments = .ok ⟨.query (.text "find *"), "index.db", none, false⟩ :=
  eq_ok_of_toOption_eq_some (by decide +kernel)

theorem read_jsonArguments :
    read jsonArguments = .ok ⟨.query (.json everythingJson), "index.db", none, false⟩ :=
  eq_ok_of_toOption_eq_some (by decide +kernel)

/-- The newest of two nodes comes first. -/
theorem nodes_sampleStore (limit : Int64) :
    (everythingStatement limit).nodes sampleStore = sampleStore.nodes.reverse := by
  have hsorted : sampleStore.nodes.reverse.Pairwise
      fun r r' => (everythingStatement 1).order sampleStore r r' = .lt :=
    List.pairwise_pair.mpr (by decide)
  exact (PageStatement.eq_nodes Query.wellTyped_sampleStore (by decide)
    (fun r => List.mem_reverse) hsorted).symm

/-- The nodes of the sample as answers show them. -/
def sampleNodes : List Node :=
  [⟨"p1", "Plan", none, none, some 2, none, none, none⟩,
    ⟨"n1", "Draft", "p1", none, some 1, none, none, none⟩]

theorem run_everything_sampleStore {limit : Int64} (hlimit : 1 ≤ limit) (source : FieldSource)
    (now : Int) : (everything limit).run ⟨some sampleStore⟩ source now
      = .ok (Page.ofNodes limit (sampleNodes.take limit.toInt.toNat)) := by
  refine run_everything hlimit ?_ source now
  have hrows : (everythingStatement limit).page sampleStore
      = sampleStore.nodes.reverse.take limit.toInt.toNat := by
    unfold PageStatement.page
    rw [nodes_sampleStore]
    rfl
  rw [hrows]
  match limit.toInt.toNat with
  | 0 => rfl
  | 1 => rfl
  | n + 2 => cases n <;> rfl

theorem exists_settings {m : Machine} {n : Int64}
    (h : (settingsFor m none).toOption.map (·.queryLimit) = some n) :
    ∃ settings, settingsFor m none = .ok settings ∧ settings.queryLimit = n := by
  obtain ⟨settings, hsettings, hlimit⟩ := Option.map_eq_some_iff.mp h
  exact ⟨settings, eq_ok_of_toOption_eq_some hsettings, hlimit⟩

/-- The settings ask for one node a page. -/
def oneByOne : String := "[query]\ndefault_limit = 1\n"

/-! ### One page size -/

/-- **One page size for both forms**: under given settings the text of a query without a limit
clause and its JSON without a limit always have one answer if and only if the settings keep the
usual page size. If they do, two command lines that are run under them, or under none that can be
read, and that give the query in the one form and in the other leave the same. -/
theorem query_forms_agree (settings : Settings) :
    ((∀ m path db t s, AreFormsWithoutLimit t s →
      answer m settings path db (.query (.text t)) = answer m settings path db (.query (.json s)))
        ↔ settings.queryLimit = defaultLimit) ∧
    (settings.queryLimit = defaultLimit →
      ∀ m database config pretty a b t s, AreFormsWithoutLimit t s →
        read a = .ok ⟨.query (.text t), database, config, pretty⟩ →
        read b = .ok ⟨.query (.json s), database, config, pretty⟩ →
        (∀ settings', settingsFor m config = .ok settings' → settings' = settings) →
        run m a = run m b) := by
  refine ⟨⟨fun h => ?_, fun h m path db t s hforms => answer_eq hforms h⟩,
    fun hlimit m database config pretty a b t s hforms ha hb hsettings => ?_⟩
  · have hcrowd := h ⟨.empty, "", ⟨none, none, none⟩, 0⟩ "" ⟨some (crowd 101)⟩ "find *"
      everythingJson areFormsWithoutLimit_everything
    exact queryLimit_eq_of_answer_eq (by decide) (by decide) hcrowd
  · refine run_eq_of_execute_eq ha hb (execute_eq (by rintro ⟨⟩) (by rintro ⟨⟩) ?_)
    intro settings' hsettings' path db
    rw [hsettings settings' hsettings']
    exact answer_eq hforms hlimit

/-- The usual page size may also be said in the file. -/
theorem query_forms_agree_sample :
    run (sampleMachine "[query]\ndefault_limit = 100\n") textArguments
      = run (sampleMachine "[query]\ndefault_limit = 100\n") jsonArguments := by
  obtain ⟨settings, hsettings, hlimit⟩ :=
    exists_settings (m := sampleMachine "[query]\ndefault_limit = 100\n") (n := defaultLimit)
      (by decide +kernel)
  exact (query_forms_agree settings).2 hlimit _ _ _ _ _ _ _ _ areFormsWithoutLimit_everything
    read_textArguments read_jsonArguments
    fun settings' hsettings' => Except.ok.inj (hsettings'.symm.trans hsettings)

/-- Under these settings the text has both nodes on its page and the JSON has one. -/
theorem not_query_forms_agree_one :
    AreFormsWithoutLimit "find *" everythingJson ∧
    (run (sampleMachine oneByOne) textArguments).printed
      ≠ (run (sampleMachine oneByOne) jsonArguments).printed := by
  refine ⟨areFormsWithoutLimit_everything, ?_⟩
  obtain ⟨settings, hsettings, hlimit⟩ :=
    exists_settings (m := sampleMachine oneByOne) (n := 1) (by decide +kernel)
  obtain ⟨htext, hjson⟩ := queryOfSource_everything settings
  rw [hlimit] at hjson
  rw [run_of_page read_textArguments hsettings rfl htext
      (run_everything_sampleStore (by decide) _ _),
    run_of_page read_jsonArguments hsettings rfl hjson
      (run_everything_sampleStore (by decide) _ _)]
  decide +kernel

end CommandLine

end GraphIndex
