import JinCore.RateLimit.Storage

/-!
# What a bucket lets through

A call is counted by the bucket that its script meets, which need not be the bucket that is live when
the call returns.

* `Bounded`          what holds of the calls that a bucket counts, of its key, and of a block;
* `Succeeds`         no command throws;
* `PhaseOk`, `Kept`  every call of a bucket has a number of its own; `kept_step`;
* `throttler_bound`, `two_in_one_window`.
-/

namespace RateLimit
open JsString Common Storage

section
variable (i : Increment) (s : Storage)

def Admitted (c : CallId) : Prop :=
  ∃ record, s.calls c = .returned record ∧ record.isBlocked = false

/-- the script of the call ran between the creation of the bucket's key and its expiry -/
def CountedBy (bucket : Nat) (c : CallId) : Prop :=
  ∃ hit, s.counted c = some hit ∧ hit.bucket = bucket

structure Bounded : Prop where
  admitted : ∀ bucket (calls : Finset CallId),
    (∀ c ∈ calls, CountedBy s bucket c ∧ Admitted s c) → calls.card ≤ i.limit
  expires : ∀ entry, s.redis.entries (bucketKey i) = some entry → entry.expireAt ≠ none
  blocked : ∀ c, s.blockedAtStart c = true → ¬ Admitted s c

/-! ## the invariant -/

structure CountsOk (hit : Hit) : Prop where
  pos : 1 ≤ hit.number
  created : hit.bucket ≤ s.created
  live : ∀ entry, s.redis.get (bucketKey i) = some entry → hit.bucket = s.created →
    hit.number ≤ entry.value

def PhaseOk (c : CallId) : Phase → Prop
  | .idle | .incrementing => s.counted c = none
  | .readingTtl totalHits => ∃ hit, s.counted c = some hit ∧ hit.number = totalHits
  | .blocking _ _ => True
  | .returned record => record.isBlocked = false →
      ∃ hit, s.counted c = some hit ∧ hit.number ≤ i.limit

structure Kept : Prop where
  bucket : ∀ entry, s.redis.entries (bucketKey i) = some entry →
    entry.expireAt ≠ none ∧ 1 ≤ entry.value
  block : ∀ entry, s.redis.entries (blockKey i) = some entry → entry.expireAt ≠ none
  counted : ∀ c hit, s.counted c = some hit → CountsOk i s hit
  distinct : ∀ c c' hit, s.counted c = some hit → s.counted c' = some hit → c = c'
  phases : ∀ c, PhaseOk i s c (s.calls c)
  started : ∀ c, s.blockedAtStart c = true → ∃ record, s.calls c = .returned record ∧
    record.isBlocked = true

end

def Succeeds : Action → Prop
  | .fails _ => False
  | _ => True

section
variable {i : Increment} {s s' : Storage} {c k : CallId} {phase : Phase}

theorem set_self (s : Storage) (c : CallId) (phase : Phase) : (s.set c phase).calls c = phase :=
  if_pos rfl

theorem set_other (s : Storage) (hk : k ≠ c) (phase : Phase) :
    (s.set c phase).calls k = s.calls k := if_neg hk

theorem PhaseOk.congr (hok : PhaseOk i s c phase) (hcounted : s'.counted c = s.counted c) :
    PhaseOk i s' c phase := by
  cases phase with
  | idle | incrementing => exact hcounted.trans hok
  | readingTtl totalHits =>
    obtain ⟨hit, hhit, hnumber⟩ := hok
    exact ⟨hit, hcounted.trans hhit, hnumber⟩
  | blocking totalHits bucketPttl => trivial
  | returned record =>
    intro hblocked
    obtain ⟨hit, hhit, hnumber⟩ := hok hblocked
    exact ⟨hit, hcounted.trans hhit, hnumber⟩

theorem CountsOk.congr {hit : Hit} (hcounts : CountsOk i s hit) (hcreated : s'.created = s.created)
    (hget : ∀ entry, s'.redis.get (bucketKey i) = some entry → s.redis.get (bucketKey i) = some entry) :
    CountsOk i s' hit where
  pos := hcounts.pos
  created := hcreated ▸ hcounts.created
  live entry hentry hbucket := hcounts.live entry (hget entry hentry) (hbucket.trans hcreated)

/-- what a step of one call leaves as it was -/
structure Moves (c : CallId) (s s' : Storage) : Prop where
  redis : s'.redis = s.redis
  created : s'.created = s.created
  counted : s'.counted = s.counted
  calls : ∀ k, k ≠ c → s'.calls k = s.calls k
  blockedAtStart : ∀ k, k ≠ c → s'.blockedAtStart k = s.blockedAtStart k

/-- a call moves on -/
theorem Kept.move (hkept : Kept i s) (hm : Moves c s s') (hok : PhaseOk i s c (s'.calls c))
    (hstarted : s'.blockedAtStart c = true → ∃ record, s'.calls c = .returned record ∧
      record.isBlocked = true) : Kept i s' where
  bucket := by
    rw [hm.redis]
    exact hkept.bucket
  block := by
    rw [hm.redis]
    exact hkept.block
  counted k hit hk := by
    rw [hm.counted] at hk
    refine (hkept.counted k hit hk).congr hm.created fun entry hentry => ?_
    rwa [hm.redis] at hentry
  distinct := by
    rw [hm.counted]
    exact hkept.distinct
  phases k := by
    by_cases hk : k = c
    · rw [hk]
      exact hok.congr (congrFun hm.counted c)
    · rw [hm.calls k hk]
      exact (hkept.phases k).congr (congrFun hm.counted k)
  started k hk := by
    by_cases hkc : k = c
    · rw [hkc] at hk ⊢
      exact hstarted hk
    · rw [hm.blockedAtStart k hkc] at hk
      rw [hm.calls k hkc]
      exact hkept.started k hk

/-- a call that runs did not begin under a block -/
theorem Kept.running (hkept : Kept i s) (hrunning : ∀ record, s.calls c ≠ .returned record) :
    s.blockedAtStart c ≠ true := by
  intro hstarted
  obtain ⟨record, hrecord, -⟩ := hkept.started c hstarted
  exact hrunning record hrecord

theorem Kept.set (hkept : Kept i s) (hrunning : ∀ record, s.calls c ≠ .returned record)
    (hok : PhaseOk i s c phase) : Kept i (s.set c phase) := by
  refine hkept.move ⟨rfl, rfl, rfl, fun k hk => set_other s hk phase, fun _ _ => rfl⟩ ?_ ?_
  · rw [set_self]
    exact hok
  · exact fun hstarted => absurd hstarted (hkept.running hrunning)

theorem Kept.finish (hkept : Kept i s) (hrunning : ∀ record, s.calls c ≠ .returned record)
    {record : Record} (hok : PhaseOk i s c (.returned record)) : Kept i (s.finish i c record) := by
  refine hkept.move ⟨rfl, rfl, rfl, fun k hk => set_other _ hk _, fun _ _ => rfl⟩ ?_ ?_
  · have hself : (s.finish i c record).calls c = .returned record := set_self _ c _
    rw [hself]
    exact hok
  · exact fun hstarted => absurd hstarted (hkept.running hrunning)

/-! ### every command -/

theorem kept_tick (hkept : Kept i s) (ms : Nat) : Kept i { s with redis := s.redis.tick ms } where
  bucket := by
    show ∀ entry, (s.redis.tick ms).entries (bucketKey i) = some entry → _
    rw [Redis.entries_tick]
    exact hkept.bucket
  block := by
    show ∀ entry, (s.redis.tick ms).entries (blockKey i) = some entry → _
    rw [Redis.entries_tick]
    exact hkept.block
  counted k hit hk := (hkept.counted k hit hk).congr rfl fun _ hentry => Redis.get_of_tick hentry
  distinct := hkept.distinct
  phases k := (hkept.phases k).congr rfl
  started := hkept.started

theorem kept_start (hkept : Kept i s) (hphase : s.calls c = .idle) : Kept i (s.onStart i c) := by
  have hlive := Redis.pttl_pos_iff hkept.block
  have hok := hkept.phases c
  rw [hphase] at hok
  let t : Storage := { s with blockedAtStart := fun k =>
    if k = c then (s.redis.get (blockKey i)).isSome else s.blockedAtStart k }
  have hblocked : t.blockedAtStart c = (s.redis.get (blockKey i)).isSome := if_pos rfl
  show Kept i (if s.redis.pttl (blockKey i) > 0 then
    t.finish i c (blockedRecord i (s.redis.pttl (blockKey i))) else t.set c .incrementing)
  split
  next hpttl =>
    have hself : (t.finish i c (blockedRecord i (s.redis.pttl (blockKey i)))).calls c
        = .returned (blockedRecord i (s.redis.pttl (blockKey i))) := set_self _ c _
    refine hkept.move ⟨rfl, rfl, rfl, fun k hk => set_other _ hk _, fun k hk => if_neg hk⟩ ?_ ?_
    · rw [hself]
      exact fun h => Bool.noConfusion h
    · exact fun _ => ⟨_, hself, rfl⟩
  next hpttl =>
    refine hkept.move ⟨rfl, rfl, rfl, fun k hk => set_other _ hk _, fun k hk => if_neg hk⟩ ?_ ?_
    · rw [set_self]
      exact hok
    · intro hstarted
      have hsome : (s.redis.get (blockKey i)).isSome = true := hblocked.symm.trans hstarted
      exact absurd (hlive.mpr hsome) hpttl

/-- the script counts a call that no bucket has counted -/
theorem Kept.count (hkept : Kept i s) {redis : Redis} {created totalHits : Nat}
    (hphase : s.calls c = .incrementing)
    (hbucket : ∀ entry, redis.entries (bucketKey i) = some entry →
      entry.expireAt ≠ none ∧ 1 ≤ entry.value)
    (hblock : redis.entries (blockKey i) = s.redis.entries (blockKey i))
    (hcounted : ∀ k hit, s.counted k = some hit → CountsOk i { s with redis := redis, created := created } hit ∧
      hit ≠ ⟨created, totalHits⟩)
    (hnew : CountsOk i { s with redis := redis, created := created } ⟨created, totalHits⟩) :
    Kept i ({ s with
      redis := redis
      created := created
      counted := fun k => if k = c then some ⟨created, totalHits⟩ else s.counted k }.set c
        (.readingTtl totalHits)) := by
  let t : Storage := { s with
    redis := redis
    created := created
    counted := fun k => if k = c then some ⟨created, totalHits⟩ else s.counted k }
  have hself : t.counted c = some ⟨created, totalHits⟩ := if_pos rfl
  have hother : ∀ k, k ≠ c → t.counted k = s.counted k := fun k hk => if_neg hk
  refine ⟨hbucket, ?_, fun k hit hk => ?_, fun k k' hit hk hk' => ?_, fun k => ?_, fun k hk => ?_⟩
  · show ∀ entry, redis.entries (blockKey i) = some entry → _
    rw [hblock]
    exact hkept.block
  · have hcounts : CountsOk i { s with redis := redis, created := created } hit := by
      by_cases hkc : k = c
      · rw [hkc] at hk
        cases hself.symm.trans hk
        exact hnew
      · exact (hcounted k hit ((hother k hkc).symm.trans hk)).1
    exact ⟨hcounts.pos, hcounts.created, hcounts.live⟩
  · by_cases hkc : k = c <;> by_cases hkc' : k' = c
    · rw [hkc, hkc']
    · rw [hkc] at hk
      cases hself.symm.trans hk
      exact absurd rfl (hcounted k' _ ((hother k' hkc').symm.trans hk')).2
    · rw [hkc'] at hk'
      cases hself.symm.trans hk'
      exact absurd rfl (hcounted k _ ((hother k hkc).symm.trans hk)).2
    · exact hkept.distinct k k' hit ((hother k hkc).symm.trans hk) ((hother k' hkc').symm.trans hk')
  · by_cases hkc : k = c
    · rw [hkc, set_self]
      exact ⟨_, hself, rfl⟩
    · rw [set_other t hkc]
      exact (hkept.phases k).congr (hother k hkc)
  · obtain ⟨record, hrecord, hblocked⟩ := hkept.started k hk
    have hkc : k ≠ c := by
      rintro rfl
      rw [hphase] at hrecord
      cases hrecord
    exact ⟨record, (set_other t hkc _).trans hrecord, hblocked⟩

theorem kept_evalIncr (hkept : Kept i s) (hphase : s.calls c = .incrementing) :
    Kept i (s.onEvalIncr i c) := by
  have hne : blockKey i ≠ bucketKey i := blockKey_ne_bucketKey i.key i.throttlerName
  cases hget : s.redis.get (bucketKey i) with
  | none =>
    rw [onEvalIncr, Redis.incrWithTtl_new i.ttl hget, hget]
    refine hkept.count hphase (fun entry hentry => ?_)
      ((Redis.entries_put _ _ _ _).trans (if_neg hne)) (fun k hit hk => ?_) ?_
    · rw [Redis.entries_put, if_pos rfl] at hentry
      obtain ⟨-, hentry⟩ := Option.ite_none_left_eq_some.mp hentry
      cases hentry
      exact ⟨Option.some_ne_none _, Nat.le_refl 1⟩
    · have hcounts := hkept.counted k hit hk
      have hcreated := hcounts.created
      refine ⟨⟨hcounts.pos, Nat.le_succ_of_le hcreated, fun entry _ hbucket => ?_⟩, ?_⟩
      · have hbucket : hit.bucket = s.created + 1 := hbucket
        omega
      · rintro rfl
        exact absurd hcreated (Nat.not_succ_le_self _)
    · refine ⟨Nat.le_refl 1, Nat.le_refl _, fun entry hentry _ => ?_⟩
      have hentry := (Redis.get_put_self s.redis (bucketKey i) _).symm.trans hentry
      obtain ⟨hentry, -⟩ := Option.filter_eq_some_iff.mp hentry
      obtain ⟨-, hentry⟩ := Option.ite_none_left_eq_some.mp hentry
      cases hentry
      exact Nat.le_refl 1
  | some entry =>
    obtain ⟨hentry, -⟩ := Option.filter_eq_some_iff.mp hget
    obtain ⟨hexpires, hvalue⟩ := hkept.bucket entry hentry
    have hafter : ∀ entry', (s.redis.put (bucketKey i)
        (some ⟨entry.value + 1, entry.expireAt⟩)).get (bucketKey i) = some entry' →
        entry'.value = entry.value + 1 := by
      intro entry' hentry'
      rw [Redis.get_put_self] at hentry'
      cases (Option.filter_eq_some_iff.mp hentry').1
      rfl
    rw [onEvalIncr, Redis.incrWithTtl_live i.ttl hget hvalue, hget]
    refine hkept.count hphase (fun entry' hentry' => ?_)
      ((Redis.entries_put _ _ _ _).trans (if_neg hne)) (fun k hit hk => ?_) ?_
    · rw [Redis.entries_put, if_pos rfl] at hentry'
      cases hentry'
      exact ⟨hexpires, Nat.le_add_left _ _⟩
    · have hcounts := hkept.counted k hit hk
      refine ⟨⟨hcounts.pos, hcounts.created, fun entry' hentry' hbucket => ?_⟩, ?_⟩
      · have hle := hcounts.live entry hget hbucket
        rw [hafter entry' hentry']
        omega
      · rintro rfl
        exact absurd (hcounts.live entry hget rfl) (Nat.not_succ_le_self _)
    · refine ⟨Nat.le_add_left _ _, Nat.le_refl _, fun entry' hentry' _ => ?_⟩
      rw [hafter entry' hentry']

theorem kept_readTtl (hkept : Kept i s) {totalHits : Nat} (hphase : s.calls c = .readingTtl totalHits) :
    Kept i (s.onReadTtl i c totalHits) := by
  have hrunning : ∀ record, s.calls c ≠ .returned record := by
    intro record hrecord
    rw [hphase] at hrecord
    cases hrecord
  have hok := hkept.phases c
  rw [hphase] at hok
  rw [onReadTtl]
  split
  next => exact hkept.set hrunning trivial
  next hle =>
    refine hkept.finish hrunning fun _ => ?_
    obtain ⟨hit, hhit, hnumber⟩ := hok
    exact ⟨hit, hhit, by omega⟩

theorem kept_setBlock (hkept : Kept i s) {totalHits : Nat} {bucketPttl : Int} {redis : Redis}
    (hphase : s.calls c = .blocking totalHits bucketPttl)
    (hset : s.redis.setPx (blockKey i) 1 i.blockDuration = some redis) :
    Kept i ({ s with redis := redis }.finish i c (record i totalHits bucketPttl true)) := by
  have hne : bucketKey i ≠ blockKey i :=
    Ne.symm (blockKey_ne_bucketKey i.key i.throttlerName)
  obtain ⟨-, hset⟩ := Option.ite_none_left_eq_some.mp hset
  have hput := Option.some.inj hset
  have hbucket : redis.entries (bucketKey i) = s.redis.entries (bucketKey i) := by
    rw [← hput, Redis.entries_put, if_neg hne]
  have hblock : redis.entries (blockKey i)
      = some ⟨1, some (s.redis.now + i.blockDuration)⟩ := by
    rw [← hput, Redis.entries_put, if_pos rfl]
  have hnow : redis.now = s.redis.now := by
    rw [← hput]
    rfl
  have hget : redis.get (bucketKey i) = s.redis.get (bucketKey i) := by
    rw [Redis.get, Redis.get, hbucket, hnow]
  have hkept' : Kept i { s with redis := redis } := by
    refine ⟨fun entry hentry => hkept.bucket entry (hbucket.symm.trans hentry), fun entry hentry => ?_,
      fun k hit hk => (hkept.counted k hit hk).congr rfl fun entry hentry => hget.symm.trans hentry,
      hkept.distinct, fun k => (hkept.phases k).congr rfl, hkept.started⟩
    cases hblock.symm.trans hentry
    exact Option.some_ne_none _
  refine hkept'.finish (fun record hrecord => ?_) fun h => Bool.noConfusion h
  have hcalls : s.calls c = .returned record := hrecord
  rw [hphase] at hcalls
  cases hcalls

theorem kept_step (hkept : Kept i s) {a : Action} (hsucceeds : Succeeds a)
    (hstep : step i s a = some s') : Kept i s' := by
  cases a with
  | tick ms =>
    cases hstep
    exact kept_tick hkept ms
  | start c =>
    rw [Storage.step] at hstep
    split at hstep
    next hphase =>
      cases hstep
      exact kept_start hkept hphase
    next => cases hstep
  | evalIncr c =>
    rw [Storage.step] at hstep
    split at hstep
    next hphase =>
      cases hstep
      exact kept_evalIncr hkept hphase
    next => cases hstep
  | readTtl c =>
    rw [Storage.step] at hstep
    split at hstep
    next totalHits hphase =>
      cases hstep
      exact kept_readTtl hkept hphase
    next => cases hstep
  | setBlock c =>
    rw [Storage.step] at hstep
    split at hstep
    next totalHits bucketPttl hphase =>
      obtain ⟨redis, hset, rfl⟩ := Option.map_eq_some_iff.mp hstep
      exact kept_setBlock hkept hphase hset
    next => cases hstep
  | fails c => exact hsucceeds.elim

theorem kept_init (i : Increment) (now : Int) : Kept i (init now) where
  bucket _ h := nomatch h
  block _ h := nomatch h
  counted _ _ h := nomatch h
  distinct _ _ _ h := nomatch h
  phases _ := rfl
  started _ h := nomatch h

theorem Kept.bounded (hkept : Kept i s) : Bounded i s where
  admitted bucket calls hcalls := by
    -- the calls of a bucket have different numbers, and the admitted ones have numbers up to the limit
    let number (c : CallId) : Nat := ((s.counted c).map Hit.number).getD 0
    have hnumber : ∀ c ∈ calls, ∃ hit, s.counted c = some hit ∧ hit.bucket = bucket ∧
        number c = hit.number ∧ hit.number ∈ Finset.Icc 1 i.limit := by
      intro c hc
      obtain ⟨⟨hit, hhit, hbucket⟩, record, hrecord, hadmitted⟩ := hcalls c hc
      have hok := hkept.phases c
      rw [hrecord] at hok
      obtain ⟨hit', hhit', hle⟩ := hok hadmitted
      cases hhit.symm.trans hhit'
      refine ⟨hit, hhit, hbucket, ?_, Finset.mem_Icc.mpr ⟨(hkept.counted c hit hhit).pos, hle⟩⟩
      show ((s.counted c).map Hit.number).getD 0 = _
      rw [hhit]
      rfl
    have hcard : calls.card ≤ (Finset.Icc 1 i.limit).card := by
      refine Finset.card_le_card_of_injOn number (fun c hc => ?_) fun c hc c' hc' heq => ?_
      · obtain ⟨hit, -, -, hn, hmem⟩ := hnumber c hc
        rw [hn]
        exact hmem
      · obtain ⟨hit, hhit, hb, hn, -⟩ := hnumber c hc
        obtain ⟨hit', hhit', hb', hn', -⟩ := hnumber c' hc'
        have hsame : hit = hit' := by
          cases hit
          cases hit'
          rw [Hit.mk.injEq]
          exact ⟨hb.trans hb'.symm, (hn.symm.trans heq).trans hn'⟩
        exact hkept.distinct c c' hit hhit (hsame ▸ hhit')
    rwa [Nat.card_Icc, Nat.add_sub_cancel] at hcard
  expires entry hentry := (hkept.bucket entry hentry).1
  blocked c hstarted := by
    rintro ⟨record, hrecord, hadmitted⟩
    obtain ⟨record', hrecord', hblocked⟩ := hkept.started c hstarted
    rw [hrecord] at hrecord'
    cases hrecord'
    rw [hadmitted] at hblocked
    cases hblocked

end

/-! ## runs -/

theorem throttler_bound (i : Increment) (now : Int) (as : List Action) (s : Storage)
    (hsucceeds : ∀ a ∈ as, Succeeds a) (hrun : Runs.run (step i) (init now) as = some s) :
    Bounded i s := by
  have hkept : Kept i s := Runs.run_inv_guarded (P := Kept i)
    (G := fun _ a => Succeeds a) (fun s a t hs ha hstep => kept_step hs ha hstep)
    as (init now) s (kept_init i now) (Runs.guarded_of_forall as (init now) hsucceeds) hrun
  exact hkept.bounded

/-- one call a second, and a block of a second -/
def oncePerSecond : Increment := ⟨lit "ip", 1000, 1, 1000, lit "default"⟩

instance : DecidablePred Succeeds := fun a =>
  match a with
  | .fails _ => isFalse id
  | .tick _ | .start _ | .evalIncr _ | .readTtl _ | .setBlock _ => isTrue trivial

/-- a call that is let through, one over the limit, and one under the block -/
def threeCalls : List Action :=
  [.start 1, .evalIncr 1, .readTtl 1, .tick 400, .start 2, .evalIncr 2, .readTtl 2, .setBlock 2,
    .tick 999, .start 3]

theorem throttler_bound_threeCalls : ∃ s, Runs.run (step oncePerSecond) (init 0) threeCalls = some s ∧
    s.blockedAtStart 3 = true ∧ Bounded oncePerSecond s := by
  have hrun : (Runs.run (step oncePerSecond) (init 0) threeCalls).map (fun s => s.blockedAtStart 3)
      = some true := by decide
  obtain ⟨s, hs, hblocked⟩ := Option.map_eq_some_iff.mp hrun
  exact ⟨s, hs, hblocked, throttler_bound oncePerSecond 0 threeCalls s (by decide) hs⟩

/-- a call that is counted by the first bucket returns in the time of the second -/
def acrossWindows : List Action :=
  [.start 1, .evalIncr 1, .tick 1000, .start 2, .evalIncr 2, .readTtl 1, .readTtl 2]

theorem two_in_one_window : (∀ a ∈ acrossWindows, Succeeds a) ∧
    ∃ s, Runs.run (step oncePerSecond) (init 0) acrossWindows = some s ∧
      ¬ (s.admitted.filter fun call => call.2 = some 2).length ≤ oncePerSecond.limit := by
  have hrun : (Runs.run (step oncePerSecond) (init 0) acrossWindows).map (fun s => s.admitted)
      = some [(2, some 2), (1, some 2)] := by decide
  obtain ⟨s, hs, hadmitted⟩ := Option.map_eq_some_iff.mp hrun
  refine ⟨by decide, s, hs, ?_⟩
  rw [hadmitted]
  decide

end RateLimit
