/-
**The life of an API key** (`repository/api-keys.ts`, `http/auth.ts`, `routes/api-keys.ts`).

Requests come in batches, each served concurrently under any list of turns, and whatever else the
service does may happen in between (`history`).

* `Issued` — the key of a mint's answer is stored, with the organization, role and scope that the
  answer says.
* `token_principal` — **a token stands for its principal as minted, or for nobody**, at any later time.
* `revoked_for_good` — **a token is refused in every batch after the one that revoked its key**.
-/

import Meter.ControlPlane.Confinement
import Meter.ControlPlane.Histories

namespace Meter.ControlPlane

open Meter.Lib Meter.Lib.Discipline

deriving instance DecidableEq for Principal

/-- Whom a stored key authenticates. -/
def ApiKeyRow.principal (row : ApiKeyRow) : Principal :=
  ⟨row.orgId.toString, toRole row.role, toScope row.scope⟩

/-- Whom the answer of a mint says that the new key authenticates. -/
def CreatedApiKey.principal (created : CreatedApiKey) : Principal :=
  ⟨created.orgId, created.role, created.scope⟩

/-- **A key later**: it is the same key, and a revoked one is still revoked. -/
structure ApiKeyRow.Advances (row row' : ApiKeyRow) : Prop where
  id : row'.id = row.id
  tokenHash : row'.tokenHash = row.tokenHash
  principal : row'.principal = row.principal
  revoked : row.revokedAt.isSome = true → row'.revokedAt.isSome = true

theorem keyAdvances_of_updated {row row' : ApiKeyRow} (updated : @Updated .apiKeys row row') :
    ApiKeyRow.Advances row row' := by
  refine updated.kept (fun change middle advances => ?_) ⟨rfl, rfl, rfl, fun revoked => revoked⟩
  obtain ⟨id, tokenHash, principal, revoked⟩ := advances
  cases change with
  | lastUsedAt now => exact ⟨id, tokenHash, principal, revoked⟩
  | revokedAt now => exact ⟨id, tokenHash, principal, fun _ => rfl⟩

/-- The key that a mint answered with is stored. -/
structure Issued (env : Env) (created : CreatedApiKey) (world : World) : Prop where
  valid : world.db.Valid
  stored : ∃ row : ApiKeyRow, row ∈ world.db .apiKeys ∧ row.id.toString = created.id ∧
    row.tokenHash = env.hashToken created.token ∧ row.principal = created.principal

/-- The key with this id is revoked. -/
def Revoked (id : String) (world : World) : Prop :=
  ∃ row : ApiKeyRow, row ∈ world.db .apiKeys ∧ row.id.toString = id ∧ row.revokedAt.isSome = true

section

variable {env : Env} {nature : Nature} {world world' : World} {created : CreatedApiKey}

/-- What becomes of a key. -/
theorem World.Continues.key (continues : world.Continues world') {row : ApiKeyRow}
    (stored : row ∈ world.db .apiKeys) : ∃ row' : ApiKeyRow, row' ∈ world'.db .apiKeys ∧
      ApiKeyRow.Advances row row' := by
  obtain ⟨row', stored', updated⟩ := continues.rows.row stored
  exact ⟨row', stored', keyAdvances_of_updated updated⟩

theorem Issued.later (issued : Issued env created world) (continues : world.Continues world') :
    Issued env created world' := by
  obtain ⟨row, stored, id, hash, principal⟩ := issued.stored
  obtain ⟨row', stored', advances⟩ := continues.key stored
  exact ⟨continues.valid issued.valid, row', stored', advances.id ▸ id, advances.tokenHash.trans hash,
    advances.principal.trans principal⟩

theorem Revoked.later {id : String} (revoked : Revoked id world) (continues : world.Continues world') :
    Revoked id world' := by
  obtain ⟨row, stored, same, at'⟩ := revoked
  obtain ⟨row', stored', advances⟩ := continues.key stored
  exact ⟨row', stored', advances.id ▸ same, advances.revoked at'⟩

/-- Only one key has the token. -/
theorem Issued.row (issued : Issued env created world) {row : ApiKeyRow}
    (stored : row ∈ world.db .apiKeys) (hash : row.tokenHash = env.hashToken created.token) :
    row.id.toString = created.id ∧ row.principal = created.principal := by
  obtain ⟨own, found, id, same, principal⟩ := issued.stored
  obtain rfl := List.inj_on_of_nodup_map issued.valid.hashes stored found (hash.trans same.symm)
  exact ⟨id, principal⟩

/-- **A revoked key's token is that of no live key.** -/
theorem Issued.not_live (issued : Issued env created world) (revoked : Revoked created.id world)
    (parses : ∀ uuid : Uuid, env.parseUuid uuid.toString = some uuid) {row : ApiKeyRow}
    (stored : row ∈ world.db .apiKeys) (hash : row.tokenHash = env.hashToken created.token) :
    row.revokedAt ≠ none := by
  obtain ⟨other, stored', same, revokedAt⟩ := revoked
  have ids : row.id = other.id := by
    have texts : row.id.toString = other.id.toString := (issued.row stored hash).1.trans same.symm
    have parsed := parses row.id
    rw [texts, parses] at parsed
    exact (Option.some.inj parsed).symm
  have distinct := issued.valid.ids .apiKeys
  rw [Db.cores, List.map_map] at distinct
  obtain rfl := List.inj_on_of_nodup_map distinct stored stored' ids
  exact Option.isSome_iff_ne_none.mp revokedAt

/-! ### Repositories -/

/-- **Whom a token authenticates**: its key was stored, and not revoked, at some later time. -/
theorem answers_verifyApiKey (token : String) :
    (history env nature).Succeeds (history env nature).Later (verifyApiKey env token)
      (fun found _ => ∀ principal, found = some principal → ∃ w, world.Continues w ∧
        ∃ row : ApiKeyRow, row ∈ w.db .apiKeys ∧ row.tokenHash = env.hashToken token ∧
          row.revokedAt = none ∧ principal = row.principal) world := by
  refine answers_select.seq relies_later fun rows w later chosen => ?_
  cases rows with
  | nil => exact succeeds_pure fun _ _ _ => nofun
  | cons row rest =>
    obtain ⟨live, before, earlier, stored⟩ := chosen row List.mem_cons_self
    obtain ⟨hash, unrevoked⟩ := of_decide_eq_true live
    dsimp only [List.head?_cons]
    refine (answers_call .now).next relies_later fun now w' _ => ?_
    refine answers_update.seq relies_later fun _ w'' _ _ => ?_
    refine succeeds_pure fun _ _ principal same => ?_
    exact ⟨before, earlier, row, stored, hash, Option.isNone_iff_eq_none.mp unrevoked,
      (Option.some.inj same).symm⟩

/-- **A minted key is stored as the answer says.** -/
theorem answers_createApiKey (valid : world.db.Valid) (input : NewApiKey) :
    (history env nature).Succeeds (history env nature).Later (createApiKey env input)
      (Issued env) world := by
  refine (answers_call .random).next relies_later fun random w later => ?_
  refine (answers_column _).next relies_later fun org w' later' => ?_
  refine answers_insertInto.seq relies_later fun row w'' later'' inserted => ?_
  refine succeeds_pure fun last final => ?_
  obtain ⟨before, stored, continues, id, createdAt, made⟩ := inserted
  have hash : row.tokenHash = env.hashToken ("mk_" ++ random) := by rw [made, Values.row]
  obtain ⟨row', stored', advances⟩ := continues.key stored
  have issued : Issued env { toApiKey env row with token := "mk_" ++ random } w'' :=
    ⟨later''.valid (later'.valid (later.valid valid)), row', stored',
      congrArg Uuid.toString advances.id, advances.tokenHash.trans hash, advances.principal⟩
  exact issued.later final

theorem answers_revokeApiKey (id : String) (orgId : Option String) (now : Date) :
    (history env nature).Succeeds (history env nature).Later (revokeApiKey env id orgId now)
      (fun item => Revoked item.id) world := by
  refine Succeeds.map ?_
  refine (answers_column _).next relies_later fun uuid w _ => ?_
  have updating : ∀ org w, (history env nature).Succeeds (history env nature).Later
      (do
        let rows ← query (.update .apiKeys (byIdInOrg .apiKeys uuid org) (.revokedAt now.instant))
        requireRow "api_key" id rows.head?)
      (fun row => Revoked (toApiKey env row).id) w := by
    refine fun org w => answers_update.seq relies_later fun rows w' later updated => ?_
    cases rows with
    | nil => exact succeeds_throw _
    | cons row rest =>
      obtain ⟨⟨before, stored, continues⟩, old, _, rfl⟩ := updated row List.mem_cons_self
      have revoked : Revoked _ before := ⟨_, stored, rfl, rfl⟩
      exact succeeds_pure fun last final => (revoked.later continues).later final
  cases orgId with
  | none => exact updating none w
  | some orgId => exact (Succeeds.map (answers_column _)).next relies_later fun org w' _ => updating org w'

/-! ### Requests -/

/-- What holds of every answer that authentication gives itself, and of every answer of the app. -/
theorem abides_requireApiKey {request : Request} {app : Option Principal → Prog Stmt Response}
    {Q : Response → World → Prop} (refused : ∀ code status w, Q ⟨status, .error code⟩ w)
    (answers : ∀ principal w, world.Continues w →
      (history env nature).Abides (history env nature).Later (app principal) Q w) :
    (history env nature).Abides (history env nature).Later (requireApiKey env request app) Q world := by
  unfold requireApiKey
  split
  · exact answers none world ((history env nature).refl world)
  · split
    · exact fun w _ => refused _ _ w
    · refine Abides.seq relies_later (answers_verifyApiKey _) fun outcome w later _ => ?_
      rcases outcome with error | _ | principal
      · exact fun w _ => refused _ _ w
      · exact fun w _ => refused _ _ w
      · dsimp only
        split
        · exact answers _ w later
        · exact fun w _ => refused _ _ w

/-- The response to the outcome of a handler. -/
def answerOf : Except AppError Response → Response
  | .ok response => response
  | .error error => errorResponse error

theorem abides_handle_history {handler : Effect Response} {Q : Response → World → Prop}
    (errors : ∀ error w, Q (errorResponse error) w)
    (succeeds : (history env nature).Succeeds (history env nature).Later handler Q world) :
    (history env nature).Abides (history env nature).Later (handle handler) Q world := by
  refine Abides.map answerOf (fun outcome => ?_) (Abides.mono succeeds fun outcome w holds => ?_)
  · cases outcome <;> rfl
  · cases outcome with
    | error error => exact errors error w
    | ok response => exact holds response rfl

/-- **A request with the token of a revoked key is refused.** -/
theorem abides_serve_revoked {route : Request → Endpoint} {request : Request}
    (issued : Issued env created world) (revoked : Revoked created.id world)
    (bearer : bearerToken request.authorization = some created.token)
    (guarded : isExempt request.url = false)
    (parses : ∀ uuid : Uuid, env.parseUuid uuid.toString = some uuid) :
    (history env nature).Abides (history env nature).Later (serve env route request)
      (fun response _ => response = unauthorized ∨ response = serverError) world := by
  unfold serve requireApiKey
  rw [if_neg (by rw [guarded]; decide), bearer]
  refine Abides.seq relies_later (answers_verifyApiKey _) fun outcome w later found => ?_
  rcases outcome with error | _ | principal
  · exact fun _ _ => .inr rfl
  · exact fun _ _ => .inl rfl
  · obtain ⟨before, earlier, row, stored, hash, live, _⟩ := found _ rfl principal rfl
    exact absurd live ((issued.later earlier).not_live (revoked.later earlier) parses stored hash)

theorem abides_serve_mint {route : Request → Endpoint} {request : Request} (valid : world.db.Valid)
    {body : Decoded NewApiKeyBody} (mints : route request = .createApiKey body) :
    (history env nature).Abides (history env nature).Later (serve env route request)
      (fun response w => ∀ created, response.payload = .createdApiKey created → Issued env created w)
      world := by
  refine abides_requireApiKey (fun _ _ _ => nofun) fun principal w later => ?_
  refine abides_handle_history (fun error _ created => ?_) ?_
  · cases error <;> exact nofun
  rw [mints]
  refine Succeeds.next relies_later (fun _ _ _ _ => trivial) fun body w' later' => ?_
  dsimp only
  unfold inOrg
  split
  · exact succeeds_pure fun _ _ _ => nofun
  · rename_i orgId _
    dsimp only
    split
    · exact succeeds_pure fun _ _ _ => nofun
    · refine (answers_createApiKey (later'.valid (later.valid valid)) _).seq relies_later
        fun created w'' _ issued => ?_
      refine succeeds_pure fun last final other same => ?_
      cases same
      exact issued.later final

theorem abides_serve_revoke {route : Request → Endpoint} {request : Request} {id : Decoded String}
    (revokes : route request = .revokeApiKey id) :
    (history env nature).Abides (history env nature).Later (serve env route request)
      (fun response w => ∀ item, response.payload = .apiKey item → Revoked item.id w) world := by
  refine abides_requireApiKey (fun _ _ _ => nofun) fun principal w later => ?_
  refine abides_handle_history (fun error _ created => ?_) ?_
  · cases error <;> exact nofun
  rw [revokes]
  refine Succeeds.next relies_later (fun _ _ _ _ => trivial) fun id w' _ => ?_
  have answers : (history env nature).Succeeds (history env nature).Later
      (do ControlPlane.revokeApiKey env id (orgScope principal) (← call .now))
      (fun item => Revoked item.id) w' :=
    (answers_call .now).next relies_later fun now _ _ => answers_revokeApiKey _ _ _
  refine answers.seq relies_later fun item w'' _ revoked => ?_
  refine succeeds_pure fun last final other same => ?_
  cases same
  exact revoked.later final

end

/-! ### Batches -/

/-- Requests that are served concurrently, under a list of turns. -/
structure Batch where
  turns : List Nat
  requests : List Request

section

variable (env : Env) (nature : Nature) (route : Request → Endpoint)

def serveBatch (batch : Batch) : Prog Stmt (Option (List Response)) :=
  interleave batch.turns (batch.requests.map fun request => some <$> serve env route request)

/-- The state that the first batches leave. -/
def worldAt (batches : List Batch) (start : World) (k : Nat) : World :=
  (machine env nature).reached (serveBatch env route) batches start k

/-- A request of the `k`-th batch, and its answer. -/
def Answered (batches : List Batch) (start : World) (k : Nat) (request : Request)
    (response : Response) : Prop :=
  ∃ (batch : Batch) (responses : List Response) (i : Nat), batches[k]? = some batch ∧
    ((machine env nature).session (serveBatch env route) batches start).1[k]? = some (some responses) ∧
    batch.requests[i]? = some request ∧ responses[i]? = some response

end

section

variable {env : Env} {nature : Nature} {route : Request → Endpoint} {batches : List Batch}
variable {start : World}

theorem continues_worldAt {j k : Nat} (order : j ≤ k) :
    (worldAt env nature route batches start j).Continues (worldAt env nature route batches start k) :=
  later_reached (D := history env nature) (fun _ _ w => continues_run env nature _ w) order start

/-- **What a request achieves, whatever else is done, it achieves in its batch.** -/
theorem Answered.holds {k : Nat} {request : Request} {response : Response}
    (answered : Answered env nature route batches start k request response) {Q : Response → World → Prop}
    (stable : ∀ response w w', w.Continues w' → Q response w → Q response w')
    (abides : (history env nature).Abides (history env nature).Later (serve env route request) Q
      (worldAt env nature route batches start k)) :
    Q response (worldAt env nature route batches start (k + 1)) := by
  obtain ⟨batch, responses, i, found, answers, requested, responded⟩ := answered
  obtain ⟨batch', found', ran⟩ := Machine.answer_of_session answers
  cases found.symm.trans found'
  have serving : (batch.requests.map fun request => some <$> serve env route request)[i]? =
      some (some <$> serve env route request) := by
    rw [List.getElem?_map, requested]
    rfl
  have abides' := abides_turn (fun _ _ => trivial) stable batch.turns serving
    (Abides.map some (fun _ => rfl) (Abides.mono abides fun result w holds value answer => by
      cases answer
      exact holds))
  rw [worldAt, Machine.reached_succ found]
  exact (Abides.run (Abides.alone abides')).1 responses ran.symm response responded

theorem Answered.issued (valid : start.db.Valid) {m : Nat} {minter : Request} {status : Nat}
    {body : Decoded NewApiKeyBody} {created : CreatedApiKey}
    (minted : Answered env nature route batches start m minter ⟨status, .createdApiKey created⟩)
    (mints : route minter = .createApiKey body) :
    Issued env created (worldAt env nature route batches start (m + 1)) := by
  have valid' : (worldAt env nature route batches start m).db.Valid :=
    (continues_worldAt (Nat.zero_le m)).valid valid
  exact minted.holds (fun _ _ _ later holds created same => (holds created same).later later)
    (abides_serve_mint valid' mints) created rfl

theorem Answered.revoked {n : Nat} {revoker : Request} {status : Nat} {id : Decoded String}
    {item : ApiKey} (revoked : Answered env nature route batches start n revoker ⟨status, .apiKey item⟩)
    (revokes : route revoker = .revokeApiKey id) :
    Revoked item.id (worldAt env nature route batches start (n + 1)) :=
  revoked.holds (fun _ _ _ later holds item same => (holds item same).later later)
    (abides_serve_revoke revokes) item rfl

/-- **A token stands for its principal as minted, or for nobody**: whoever verifies it later, and
whatever else is done, finds the organization, the role and the scope that the mint answered. -/
theorem token_principal (valid : start.db.Valid) {m : Nat} {minter : Request} {status : Nat}
    {body : Decoded NewApiKeyBody} {created : CreatedApiKey}
    (minted : Answered env nature route batches start m minter ⟨status, .createdApiKey created⟩)
    (mints : route minter = .createApiKey body) {k : Nat} (after : m < k) {turns : List Nat}
    {programs : List (Prog Stmt (Option (Except AppError (Option Principal))))} {i : Nat}
    (verifies : programs[i]? = some (some <$> (verifyApiKey env created.token).run))
    {found : List (Except AppError (Option Principal))}
    (ran : ((machine env nature).run (interleave turns programs)
      (worldAt env nature route batches start k)).1 = some found)
    {principal : Principal} (verified : found[i]? = some (.ok (some principal))) :
    principal = created.principal := by
  have issued := (minted.issued valid mints).later (continues_worldAt after)
  let Stands (outcome : Except AppError (Option Principal)) (_ : World) : Prop :=
    ∀ principal, outcome = .ok (some principal) → principal = created.principal
  have verifying : (history env nature).Abides (history env nature).Later
      (some <$> (verifyApiKey env created.token).run)
      (fun result w => ∀ outcome, result = some outcome → Stands outcome w)
      (worldAt env nature route batches start k) := by
    refine Abides.map some (fun _ => rfl) (Abides.mono (answers_verifyApiKey created.token)
      fun outcome w holds outcome' answer principal same => ?_)
    cases answer
    obtain ⟨w, later, row, stored, hash, _, rfl⟩ := holds _ same principal rfl
    exact ((issued.later later).row stored hash).2
  have abides := abides_turn (fun _ _ => trivial) (fun _ _ _ _ holds => holds) turns verifies verifying
  exact (Abides.run abides.alone).1 found ran _ verified principal rfl

/-- **Revocation is for good**: once a revocation is answered, every request of a later batch with the
token of the key is refused, whatever is served at the same time. -/
theorem revoked_for_good (parses : ∀ uuid : Uuid, env.parseUuid uuid.toString = some uuid)
    (valid : start.db.Valid) {m n k : Nat} {minter revoker request : Request}
    {mintStatus revokeStatus : Nat} {body : Decoded NewApiKeyBody} {id : Decoded String}
    {created : CreatedApiKey} {item : ApiKey} {response : Response}
    (minted : Answered env nature route batches start m minter ⟨mintStatus, .createdApiKey created⟩)
    (mints : route minter = .createApiKey body)
    (revoked : Answered env nature route batches start n revoker ⟨revokeStatus, .apiKey item⟩)
    (revokes : route revoker = .revokeApiKey id) (same : item.id = created.id)
    (answered : Answered env nature route batches start k request response)
    (afterMint : m < k) (afterRevoke : n < k)
    (bearer : bearerToken request.authorization = some created.token)
    (guarded : isExempt request.url = false) : response = unauthorized ∨ response = serverError := by
  have issued := (minted.issued valid mints).later (continues_worldAt afterMint)
  have gone := (revoked.revoked revokes).later (continues_worldAt afterRevoke)
  exact answered.holds (fun _ _ _ _ holds => holds)
    (abides_serve_revoked issued (same ▸ gone) bearer guarded parses)

end

/-! ### A key that is minted, used and revoked -/

/-- The router and the schemas, for the requests below. -/
def keyRoute (request : Request) : Endpoint :=
  if isExempt request.url then .health
  else if request.url = "/v1/api-keys" then .createApiKey (.ok ⟨orgA.toString, "ci", none, none⟩)
  else if request.url = "/v1/agents" then .listAgents (.ok orgA.toString)
  else .revokeApiKey (.ok "00000000-0000-0000-0000-0000000003ed")

def minting : Request := ⟨"POST", "/v1/api-keys", some "Bearer mk_a", ""⟩

def revoking : Request :=
  ⟨"POST", "/v1/api-keys/00000000-0000-0000-0000-0000000003ed/revoke", some "Bearer mk_a", ""⟩

def listing : Request := ⟨"GET", "/v1/agents", some "Bearer mk_aaaaaa", ""⟩

/-- An admin mints a key and revokes it, while the key is used. -/
def mintAndRevoke : List Batch :=
  [⟨[0, 1], [minting, listing]⟩, ⟨[1, 0, 1], [revoking, listing]⟩, ⟨[], [listing]⟩]

/-- The answer to a request of a batch. -/
def answerTo (k i : Nat) : Option Response :=
  (((machine plainEnv smoothly).session (serveBatch plainEnv keyRoute) mintAndRevoke
    sampleStart).1[k]?.join.bind fun responses => responses[i]?)

def Response.createdKey (response : Response) : Option CreatedApiKey :=
  match response.payload with
  | .createdApiKey created => some created
  | _ => none

def Response.key (response : Response) : Option ApiKey :=
  match response.payload with
  | .apiKey item => some item
  | _ => none

theorem Response.of_createdKey {response : Response} {created : CreatedApiKey}
    (same : response.createdKey = some created) :
    response = ⟨response.status, .createdApiKey created⟩ := by
  obtain ⟨status, payload⟩ := response
  cases payload with
  | createdApiKey item => rw [Option.some.inj same]
  | _ => cases same

theorem Response.of_key {response : Response} {item : ApiKey} (same : response.key = some item) :
    response = ⟨response.status, .apiKey item⟩ := by
  obtain ⟨status, payload⟩ := response
  cases payload with
  | apiKey item => rw [Option.some.inj same]
  | _ => cases same

theorem answered_of_answerTo {k i : Nat} {batch : Batch} {request : Request} {response : Response}
    (found : mintAndRevoke[k]? = some batch) (requested : batch.requests[i]? = some request)
    (answer : answerTo k i = some response) :
    Answered plainEnv smoothly keyRoute mintAndRevoke sampleStart k request response := by
  obtain ⟨responses, answers, responded⟩ := Option.bind_eq_some_iff.mp answer
  exact ⟨batch, responses, i, found, Option.join_eq_some_iff.mp answers, requested, responded⟩

theorem sample_minted : ∃ status created,
    Answered plainEnv smoothly keyRoute mintAndRevoke sampleStart 0 minting
      ⟨status, .createdApiKey created⟩ ∧
    created.id = "00000000-0000-0000-0000-0000000003ed" ∧ created.token = "mk_aaaaaa" := by
  have minted : ((answerTo 0 0).bind Response.createdKey).map
      (fun created => (created.id, created.token)) =
        some ("00000000-0000-0000-0000-0000000003ed", "mk_aaaaaa") := by decide +kernel
  obtain ⟨created, found, same⟩ := Option.map_eq_some_iff.mp minted
  obtain ⟨response, answer, made⟩ := Option.bind_eq_some_iff.mp found
  refine ⟨response.status, created, ?_, congrArg Prod.fst same, congrArg Prod.snd same⟩
  rw [← Response.of_createdKey made]
  exact answered_of_answerTo rfl rfl answer

theorem sample_revoked : ∃ status item,
    Answered plainEnv smoothly keyRoute mintAndRevoke sampleStart 1 revoking
      ⟨status, .apiKey item⟩ ∧ item.id = "00000000-0000-0000-0000-0000000003ed" := by
  have revoked : ((answerTo 1 0).bind Response.key).map ApiKey.id =
      some "00000000-0000-0000-0000-0000000003ed" := by decide +kernel
  obtain ⟨item, found, same⟩ := Option.map_eq_some_iff.mp revoked
  obtain ⟨response, answer, made⟩ := Option.bind_eq_some_iff.mp found
  refine ⟨response.status, item, ?_, same⟩
  rw [← Response.of_key made]
  exact answered_of_answerTo rfl rfl answer

theorem revoked_for_good_sample : ∃ response,
    Answered plainEnv smoothly keyRoute mintAndRevoke sampleStart 2 listing response ∧
      (response = unauthorized ∨ response = serverError) := by
  obtain ⟨_, created, minted, id, token⟩ := sample_minted
  obtain ⟨_, item, revoked, same⟩ := sample_revoked
  obtain ⟨response, answer⟩ := Option.isSome_iff_exists.mp
    (show (answerTo 2 0).isSome = true by decide +kernel)
  have answered : Answered plainEnv smoothly keyRoute mintAndRevoke sampleStart 2 listing response :=
    answered_of_answerTo rfl rfl answer
  refine ⟨response, answered, revoked_for_good Uuid.parseHyphenated_toString tenants_valid minted rfl
    revoked rfl (same.trans id.symm) answered (by decide) (by decide) ?_ (by decide +kernel)⟩
  rw [token]
  decide +kernel

theorem token_principal_sample : ∃ (status : Nat) (created : CreatedApiKey),
    Answered plainEnv smoothly keyRoute mintAndRevoke sampleStart 0 minting
      ⟨status, .createdApiKey created⟩ ∧ ⟨orgA.toString, "admin", .org⟩ = created.principal := by
  obtain ⟨status, created, minted, _, token⟩ := sample_minted
  have ran : ((machine plainEnv smoothly).run
      (interleave [] [some <$> (verifyApiKey plainEnv "mk_aaaaaa").run])
      (worldAt plainEnv smoothly keyRoute mintAndRevoke sampleStart 1)).1 =
        some [.ok (some ⟨orgA.toString, "admin", .org⟩)] := by decide +kernel
  rw [← token] at ran
  exact ⟨status, created, minted,
    token_principal (i := 0) tenants_valid minted rfl Nat.zero_lt_one rfl ran rfl⟩

end Meter.ControlPlane
