import JinCore.Common.Calls
import JinCore.Lib.Runs
import Mathlib.Order.Interval.Finset.Nat

/-!
# The rate limit on Redis (`redis-throttler-storage.service.ts`)

A call of `increment` is three or four commands; the calls run beside each other and beside the
clock, and each command is one step.

* `Redis`            keys with a value and an expiry, and the commands that are used;
* `Increment`        the arguments, which the calls share;
* `Phase`            where a call stands;
* `Storage`          Redis, the calls, and which bucket has counted which call;
* `Storage.step`     one command of one call, or the clock.
-/

namespace RateLimit
open JsString Common

/-! ## keys that expire -/

structure Entry where
  value : Nat
  expireAt : Option Int
  deriving DecidableEq, Repr

structure Redis where
  entries : JsString → Option Entry
  now : Int

def Entry.isLive (now : Int) (entry : Entry) : Bool :=
  entry.expireAt.all fun expireAt => now < expireAt

namespace Redis

def get (r : Redis) (key : JsString) : Option Entry :=
  (r.entries key).filter (Entry.isLive r.now)

def put (r : Redis) (key : JsString) (entry : Option Entry) : Redis :=
  { r with entries := fun k => if k = key then entry else r.entries k }

def pttl (r : Redis) (key : JsString) : Int :=
  match r.get key with
  | none => -2
  | some entry =>
    match entry.expireAt with
    | none => -1
    | some expireAt => expireAt - r.now

/-- the value after the command, and an expiry that stays as it is -/
def incr (r : Redis) (key : JsString) : Nat × Redis :=
  match r.get key with
  | none => (1, r.put key (some ⟨1, none⟩))
  | some entry => (entry.value + 1, r.put key (some ⟨entry.value + 1, entry.expireAt⟩))

/-- a time that is not positive deletes the key -/
def pexpire (r : Redis) (key : JsString) (ms : Int) : Redis :=
  match r.get key with
  | none => r
  | some entry => r.put key (if ms ≤ 0 then none else some ⟨entry.value, some (r.now + ms)⟩)

/-- `SET key value PX ms`, an error if the time is not positive -/
def setPx (r : Redis) (key : JsString) (value : Nat) (ms : Int) : Option Redis :=
  if ms ≤ 0 then none else some (r.put key (some ⟨value, some (r.now + ms)⟩))

/-- `INCR_WITH_TTL_SCRIPT` -/
def incrWithTtl (r : Redis) (key : JsString) (ttl : Int) : Nat × Redis :=
  let (current, r) := r.incr key
  (current, if current = 1 then r.pexpire key ttl else r)

def tick (r : Redis) (ms : Nat) : Redis := { r with now := r.now + ms }

section
variable {r : Redis} {key other : JsString} {entry : Entry}

theorem entries_put (r : Redis) (key other : JsString) (entry : Option Entry) :
    (r.put key entry).entries other = if other = key then entry else r.entries other := rfl

theorem get_put_self (r : Redis) (key : JsString) (entry : Option Entry) :
    (r.put key entry).get key = entry.filter (Entry.isLive r.now) := by
  rw [get, entries_put, if_pos rfl]
  rfl

theorem put_put (r : Redis) (key : JsString) (entry entry' : Option Entry) :
    (r.put key entry).put key entry' = r.put key entry' := by
  rw [put, put, put, Redis.mk.injEq]
  refine ⟨?_, rfl⟩
  funext k
  by_cases hk : k = key
  · rw [if_pos hk, if_pos hk]
  · rw [if_neg hk, if_neg hk]
    exact if_neg hk

theorem entries_tick (r : Redis) (ms : Nat) : (r.tick ms).entries = r.entries := rfl

/-- the clock only takes keys away -/
theorem get_of_tick {ms : Nat} (h : (r.tick ms).get key = some entry) : r.get key = some entry := by
  obtain ⟨hentry, hlive⟩ := Option.filter_eq_some_iff.mp h
  refine Option.filter_eq_some_iff.mpr ⟨hentry, ?_⟩
  rw [Entry.isLive] at hlive ⊢
  cases hexpire : entry.expireAt with
  | none => rfl
  | some expireAt =>
    rw [hexpire] at hlive
    have hlt : r.now + ms < expireAt := of_decide_eq_true hlive
    exact decide_eq_true (by omega)

/-- the first call of a bucket creates the key with its expiry -/
theorem incrWithTtl_new (ttl : Int) (h : r.get key = none) : r.incrWithTtl key ttl
    = (1, r.put key (if ttl ≤ 0 then none else some ⟨1, some (r.now + ttl)⟩)) := by
  have hget : (r.put key (some ⟨1, none⟩)).get key = some ⟨1, none⟩ := get_put_self r key _
  rw [incrWithTtl, incr, h]
  show (1, (r.put key (some ⟨1, none⟩)).pexpire key ttl) = _
  rw [pexpire, hget]
  show (1, (r.put key (some ⟨1, none⟩)).put key _) = _
  rw [put_put]
  rfl

/-- the others leave its expiry as it is -/
theorem incrWithTtl_live (ttl : Int) (h : r.get key = some entry) (hvalue : 1 ≤ entry.value) :
    r.incrWithTtl key ttl
      = (entry.value + 1, r.put key (some ⟨entry.value + 1, entry.expireAt⟩)) := by
  rw [incrWithTtl, incr, h]
  show (entry.value + 1, if entry.value + 1 = 1 then _ else _) = _
  rw [if_neg (by omega)]

/-- a key with an expiry is live exactly where its remaining time is positive -/
theorem pttl_pos_iff (hexpires : ∀ entry, r.entries key = some entry → entry.expireAt ≠ none) :
    0 < r.pttl key ↔ (r.get key).isSome = true := by
  cases hget : r.get key with
  | none =>
    rw [pttl, hget]
    simp
  | some entry =>
    obtain ⟨hentry, hlive⟩ := Option.filter_eq_some_iff.mp hget
    obtain ⟨expireAt, hexpire⟩ := Option.ne_none_iff_exists'.mp (hexpires entry hentry)
    rw [Entry.isLive, hexpire] at hlive
    have hlt : r.now < expireAt := of_decide_eq_true hlive
    rw [pttl, hget]
    show 0 < (match entry.expireAt with | none => -1 | some expireAt => expireAt - r.now) ↔ _
    rw [hexpire]
    show 0 < expireAt - r.now ↔ _
    simpa using hlt

end

end Redis

/-! ## the calls -/

structure Increment where
  key : JsString
  ttl : Int
  limit : Nat
  blockDuration : Int
  throttlerName : JsString

def buildBucketKey (key throttlerName : JsString) : JsString :=
  lit "throttle:" ++ throttlerName ++ lit ":" ++ key

def buildBlockKey (key throttlerName : JsString) : JsString :=
  lit "throttle-block:" ++ throttlerName ++ lit ":" ++ key

theorem blockKey_ne_bucketKey (key throttlerName : JsString) :
    buildBlockKey key throttlerName ≠ buildBucketKey key throttlerName := by
  have hblock : (lit "throttle-block:").units
      = [116, 104, 114, 111, 116, 116, 108, 101] ++ [45, 98, 108, 111, 99, 107, 58] := by decide
  have hbucket : (lit "throttle:").units
      = [116, 104, 114, 111, 116, 116, 108, 101] ++ [58] := by decide
  intro h
  have hunits := congrArg JsString.units h
  rw [buildBlockKey, buildBucketKey] at hunits
  simp only [units_append, hblock, hbucket, List.append_assoc, List.append_cancel_left_eq] at hunits
  exact absurd (List.cons.inj hunits).1 (by decide)

structure Record where
  totalHits : Nat
  timeToExpire : Int
  isBlocked : Bool
  timeToBlockExpire : Int
  deriving DecidableEq, Repr

/-- `Math.ceil(ms / 1000)` -/
def ceilSeconds (ms : Int) : Int := -(-ms / 1000)

inductive Phase where
  | idle
  /-- before the script -/
  | incrementing
  /-- before the time of the bucket is read -/
  | readingTtl (totalHits : Nat)
  /-- before the block is set -/
  | blocking (totalHits : Nat) (bucketPttl : Int)
  | returned (record : Record)
  deriving DecidableEq, Repr

/-- the bucket that has counted a call, and which of its calls it is -/
structure Hit where
  bucket : Nat
  number : Nat
  deriving DecidableEq, Repr

structure Storage where
  redis : Redis
  calls : CallId → Phase
  /-- how many bucket keys were created -/
  created : Nat
  counted : CallId → Option Hit
  /-- the block key was live when the call began -/
  blockedAtStart : CallId → Bool
  /-- the calls that returned `isBlocked` false, each with the bucket that was live then -/
  admitted : List (CallId × Option Nat)

inductive Action where
  | tick (ms : Nat)
  /-- `pttl` of the block key, the first command of a call -/
  | start (c : CallId)
  | evalIncr (c : CallId)
  | readTtl (c : CallId)
  | setBlock (c : CallId)
  /-- a command throws -/
  | fails (c : CallId)

namespace Storage
variable (i : Increment)

def bucketKey : JsString := buildBucketKey i.key i.throttlerName
def blockKey : JsString := buildBlockKey i.key i.throttlerName

def set (s : Storage) (c : CallId) (phase : Phase) : Storage :=
  { s with calls := fun k => if k = c then phase else s.calls k }

/-- the bucket whose key is live -/
def liveBucket (s : Storage) : Option Nat := (s.redis.get (bucketKey i)).map fun _ => s.created

def finish (s : Storage) (c : CallId) (record : Record) : Storage :=
  { s with admitted := if record.isBlocked then s.admitted
      else (c, s.liveBucket i) :: s.admitted }.set c (.returned record)

def blockedRecord (blockPttl : Int) : Record :=
  ⟨i.limit + 1, ceilSeconds blockPttl, true, ceilSeconds blockPttl⟩

def record (totalHits : Nat) (bucketPttl : Int) (isBlocked : Bool) : Record :=
  ⟨totalHits, ceilSeconds (max bucketPttl 0), isBlocked,
    if isBlocked then ceilSeconds i.blockDuration else 0⟩

/-- a call that could not reach Redis is let through -/
def failOpen : Record := ⟨0, 0, false, 0⟩

def onStart (s : Storage) (c : CallId) : Storage :=
  let blockPttl := s.redis.pttl (blockKey i)
  let s := { s with blockedAtStart := fun k =>
    if k = c then (s.redis.get (blockKey i)).isSome else s.blockedAtStart k }
  if blockPttl > 0 then s.finish i c (blockedRecord i blockPttl) else s.set c .incrementing

def onEvalIncr (s : Storage) (c : CallId) : Storage :=
  let created := if (s.redis.get (bucketKey i)).isSome then s.created else s.created + 1
  let (totalHits, redis) := s.redis.incrWithTtl (bucketKey i) i.ttl
  { s with
    redis := redis
    created := created
    counted := fun k => if k = c then some ⟨created, totalHits⟩ else s.counted k }.set c
    (.readingTtl totalHits)

def onReadTtl (s : Storage) (c : CallId) (totalHits : Nat) : Storage :=
  let bucketPttl := s.redis.pttl (bucketKey i)
  if totalHits > i.limit then s.set c (.blocking totalHits bucketPttl)
  else s.finish i c (record i totalHits bucketPttl false)

def step (s : Storage) : Action → Option Storage
  | .tick ms => some { s with redis := s.redis.tick ms }
  | .start c =>
    match s.calls c with
    | .idle => some (s.onStart i c)
    | _ => none
  | .evalIncr c =>
    match s.calls c with
    | .incrementing => some (s.onEvalIncr i c)
    | _ => none
  | .readTtl c =>
    match s.calls c with
    | .readingTtl totalHits => some (s.onReadTtl i c totalHits)
    | _ => none
  | .setBlock c =>
    match s.calls c with
    | .blocking totalHits bucketPttl =>
      (s.redis.setPx (blockKey i) 1 i.blockDuration).map fun redis =>
        { s with redis := redis }.finish i c (record i totalHits bucketPttl true)
    | _ => none
  | .fails c =>
    match s.calls c with
    | .returned _ => none
    | _ => some (s.finish i c failOpen)

def init (now : Int) : Storage where
  redis := ⟨fun _ => none, now⟩
  calls := fun _ => .idle
  created := 0
  counted := fun _ => none
  blockedAtStart := fun _ => false
  admitted := []

end Storage

end RateLimit
