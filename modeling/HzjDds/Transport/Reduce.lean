import Mathlib.Data.Int.Notation
import Mathlib.Data.List.Basic

/-!
# Pickling of transports

Library `Transport`. Source: `core/transport.py:108–196`. Pickling a transport calls its
`__reduce__`, and the other process calls the class that it names with the arguments that it gives.
The backends and `LCMTopic` are outside the repository, `DimosROS` is made when the transport starts.
-/

namespace HzjDds.Transport.Reduce

universe u

/-- A Python value that a constructor is called with. -/
inductive Value (ν : Type u) where
  | str (s : String)
  | int (n : ℤ)
  | object (o : ν)
  deriving DecidableEq, Repr

/-- Keyword arguments. -/
abbrev Kwargs (ν : Type u) := List (String × Value ν)

/-- Arguments of a call. -/
structure Args (ν : Type u) where
  positional : List (Value ν)
  keyword : Kwargs ν := []
  deriving DecidableEq, Repr

variable {ν δ : Type u}

/-- The value of the next parameter and the arguments that are left. A parameter that is missing or
given twice raises a `TypeError`. -/
def Args.take (a : Args ν) (name : String) (default : Option (Value ν)) :
    Option (Value ν × Args ν) :=
  match a.positional, a.keyword.lookup name with
  | value :: rest, none => some (value, { a with positional := rest })
  | _ :: _, some _ => none
  | [], some value => some (value, { a with keyword := a.keyword.filter (·.1 ≠ name) })
  | [], none => default.map fun value ↦ (value, a)

/-- `**kwargs`: what the parameters have left. The first parameter is called `self`. -/
def Args.kwargs (a : Args ν) : Option (Kwargs ν) :=
  if a.positional.isEmpty && (a.keyword.lookup "self").isNone then some a.keyword else none

/-- The classes of the backends. -/
inductive BackendClass where
  | PickleLCM
  | LCM
  | JpegLCM
  | PickleSharedMemory
  | BytesSharedMemory
  | JpegSharedMemory
  | DimosROS
  deriving DecidableEq, Repr

/-- A backend and the arguments that it was constructed from. -/
structure Backend (ν : Type u) where
  cls : BackendClass
  kwargs : Kwargs ν
  deriving DecidableEq, Repr

/-- What is outside the repository: the keyword arguments with which the constructor of a backend
does not raise, `LCMTopic(topic, type)` and its two fields. -/
structure Outside (ν δ : Type u) where
  accepts : BackendClass → Kwargs ν → Bool
  lcmTopic : Value ν → Value ν → δ
  topic : δ → Value ν
  lcm_type : δ → Value ν

/-- The fields of an `LCMTopic` are the arguments that it was made from. -/
structure Outside.StoresArguments (out : Outside ν δ) : Prop where
  topic : ∀ topic type, out.topic (out.lcmTopic topic type) = topic
  lcm_type : ∀ topic type, out.lcm_type (out.lcmTopic topic type) = type

/-- An `LCMTopic` with two fields, and backends that take all keyword arguments. -/
def Outside.dataclass : Outside ν (Value ν × Value ν) where
  accepts _ _ := true
  lcmTopic := Prod.mk
  topic := Prod.fst
  lcm_type := Prod.snd

/-- The constructor of a backend. -/
def Outside.construct (out : Outside ν δ) (cls : BackendClass) (kwargs : Kwargs ν) :
    Option (Backend ν) :=
  if out.accepts cls kwargs then some ⟨cls, kwargs⟩ else none

/-- `ROSTopic`; `rospubsub.py:65–71`. -/
structure ROSTopic (ν : Type u) where
  topic : Value ν
  msg_type : Value ν
  qos : Option (Value ν) := none
  deriving DecidableEq, Repr

/-- The classes that define `__reduce__`. -/
inductive TransportClass where
  | pLCMTransport
  | LCMTransport
  | JpegLcmTransport
  | pSHMTransport
  | SHMTransport
  | JpegShmTransport
  | ROSTransport
  deriving DecidableEq, Repr

/-- A transport with its attributes. -/
inductive BuiltTransport (ν δ : Type u) where
  | pLCM (topic : Value ν) (lcm : Backend ν)
  | LCM (topic : δ) (lcm : Backend ν)
  | JpegLcm (topic : δ) (lcm : Backend ν)
  | pSHM (topic : Value ν) (shm : Backend ν)
  | SHM (topic : Value ν) (shm : Backend ν)
  | JpegShm (topic : Value ν) (shm : Backend ν) (quality : Value ν)
  | ROS (topic : ROSTopic ν) (kwargs : Kwargs ν)
  deriving DecidableEq, Repr

section
variable (out : Outside ν δ)

/-- `__init__` of a transport whose only parameter is its topic. -/
def plainInit (cls : BackendClass) (make : Value ν → Backend ν → BuiltTransport ν δ) (a : Args ν) :
    Option (BuiltTransport ν δ) := do
  let (topic, a) ← a.take "topic" none
  let backend ← out.construct cls (← a.kwargs)
  return make topic backend

/-- `pLCMTransport.__init__`. -/
def pLCMTransport.init (a : Args ν) : Option (BuiltTransport ν δ) :=
  plainInit out .PickleLCM .pLCM a

/-- `LCMTransport.__init__` on an object that may have an attribute `lcm` already. -/
def LCMTransport.attributes (lcm : Option (Backend ν)) (a : Args ν) : Option (δ × Backend ν) := do
  let (topic, a) ← a.take "topic" none
  let (type, a) ← a.take "type" none
  let kwargs ← a.kwargs
  match lcm with
  | some lcm => return (out.lcmTopic topic type, lcm)
  | none => return (out.lcmTopic topic type, ← out.construct .LCM kwargs)

/-- `LCMTransport.__init__`. -/
def LCMTransport.init (a : Args ν) : Option (BuiltTransport ν δ) := do
  let (topic, lcm) ← LCMTransport.attributes out none a
  return .LCM topic lcm

/-- `JpegLcmTransport.__init__`. -/
def JpegLcmTransport.init (a : Args ν) : Option (BuiltTransport ν δ) := do
  let (topic, a) ← a.take "topic" none
  let (type, a) ← a.take "type" none
  let lcm ← out.construct .JpegLCM (← a.kwargs)
  let (topic, lcm) ← LCMTransport.attributes out (some lcm) { positional := [topic, type] }
  return .JpegLcm topic lcm

/-- `pSHMTransport.__init__`. -/
def pSHMTransport.init (a : Args ν) : Option (BuiltTransport ν δ) :=
  plainInit out .PickleSharedMemory .pSHM a

/-- `SHMTransport.__init__`. -/
def SHMTransport.init (a : Args ν) : Option (BuiltTransport ν δ) :=
  plainInit out .BytesSharedMemory .SHM a

/-- `JpegShmTransport.__init__`. -/
def JpegShmTransport.init (a : Args ν) : Option (BuiltTransport ν δ) := do
  let (topic, a) ← a.take "topic" none
  let (quality, a) ← a.take "quality" (some (.int 75))
  let shm ← out.construct .JpegSharedMemory (("quality", quality) :: (← a.kwargs))
  return .JpegShm topic shm quality

/-- `ROSTransport.__init__`. -/
def ROSTransport.init (a : Args ν) : Option (BuiltTransport ν δ) := do
  let (topic, a) ← a.take "topic" none
  let (msg_type, a) ← a.take "msg_type" none
  return .ROS { topic, msg_type } (← a.kwargs)

/-- A call of a class. -/
def TransportClass.call : TransportClass → Args ν → Option (BuiltTransport ν δ)
  | .pLCMTransport => pLCMTransport.init out
  | .LCMTransport => LCMTransport.init out
  | .JpegLcmTransport => JpegLcmTransport.init out
  | .pSHMTransport => pSHMTransport.init out
  | .SHMTransport => SHMTransport.init out
  | .JpegShmTransport => JpegShmTransport.init out
  | .ROSTransport => ROSTransport.init

/-- `__reduce__`. -/
def BuiltTransport.reduce : BuiltTransport ν δ → TransportClass × List (Value ν)
  | .pLCM topic _ => (.pLCMTransport, [topic])
  | .LCM topic _ => (.LCMTransport, [out.topic topic, out.lcm_type topic])
  | .JpegLcm topic _ => (.JpegLcmTransport, [out.topic topic, out.lcm_type topic])
  | .pSHM topic _ => (.pSHMTransport, [topic])
  | .SHM topic _ => (.SHMTransport, [topic])
  | .JpegShm topic _ quality => (.JpegShmTransport, [topic, quality])
  | .ROS topic _ => (.ROSTransport, [topic.topic, topic.msg_type])

/-- The object that is rebuilt from what `__reduce__` returns. -/
def BuiltTransport.rebuild (t : BuiltTransport ν δ) : Option (BuiltTransport ν δ) :=
  (t.reduce out).1.call out { positional := (t.reduce out).2 }

end

/-- The class of a transport. -/
def BuiltTransport.cls : BuiltTransport ν δ → TransportClass
  | .pLCM _ _ => .pLCMTransport
  | .LCM _ _ => .LCMTransport
  | .JpegLcm _ _ => .JpegLcmTransport
  | .pSHM _ _ => .pSHMTransport
  | .SHM _ _ => .SHMTransport
  | .JpegShm _ _ _ => .JpegShmTransport
  | .ROS _ _ => .ROSTransport

/-- A topic descriptor: the argument itself, an `LCMTopic` or a `ROSTopic`. -/
inductive TopicDescriptor (ν δ : Type u) where
  | plain (topic : Value ν)
  | lcm (topic : δ)
  | ros (topic : ROSTopic ν)
  deriving DecidableEq, Repr

/-- `self.topic`. -/
def BuiltTransport.topic : BuiltTransport ν δ → TopicDescriptor ν δ
  | .pLCM topic _ | .pSHM topic _ | .SHM topic _ | .JpegShm topic _ _ => .plain topic
  | .LCM topic _ | .JpegLcm topic _ => .lcm topic
  | .ROS topic _ => .ros topic

/-- The backend of a transport; `start` makes that of a `ROSTransport` from the stored arguments. -/
def BuiltTransport.backend : BuiltTransport ν δ → Backend ν
  | .pLCM _ lcm | .LCM _ lcm | .JpegLcm _ lcm => lcm
  | .pSHM _ shm | .SHM _ shm | .JpegShm _ shm _ => shm
  | .ROS _ kwargs => ⟨.DimosROS, kwargs⟩

/-- Two backends of one class that were constructed from equal arguments. -/
def Backend.Same (b b' : Backend ν) : Prop :=
  b.cls = b'.cls ∧ ∀ key, b.kwargs.lookup key = b'.kwargs.lookup key

/-- The object that is rebuilt has the class, the topic descriptor and the backend configuration of
the pickled one. -/
def Preserved (out : Outside ν δ) (t : BuiltTransport ν δ) : Prop :=
  ∃ t', t.rebuild out = some t' ∧ t'.cls = t.cls ∧ t'.topic = t.topic ∧ t'.backend.Same t.backend

/-- The named parameters of a class. -/
def TransportClass.parameters : TransportClass → List String
  | .pLCMTransport | .pSHMTransport | .SHMTransport => ["topic"]
  | .LCMTransport | .JpegLcmTransport => ["topic", "type"]
  | .JpegShmTransport => ["topic", "quality"]
  | .ROSTransport => ["topic", "msg_type"]

/-- The call has no keyword arguments for the backend. -/
def NoBackendArguments (cls : TransportClass) (a : Args ν) : Prop :=
  ∀ argument ∈ a.keyword, argument.1 ∈ cls.parameters

/-! ## Binding the arguments -/

private theorem mem_keyword_take {a a' : Args ν} {name : String} {default : Option (Value ν)}
    {value : Value ν} (h : a.take name default = some (value, a')) (argument : String × Value ν) :
    argument ∈ a'.keyword ↔ argument ∈ a.keyword ∧ argument.1 ≠ name := by
  have habsent : a.keyword.lookup name = none →
      (argument ∈ a.keyword ↔ argument ∈ a.keyword ∧ argument.1 ≠ name) := by
    intro hlookup
    refine (and_iff_left_of_imp fun hmem heq ↦ ?_).symm
    have hne := List.lookup_eq_none_iff.mp hlookup argument hmem
    simp [heq] at hne
  unfold Args.take at h
  split at h
  · next hlookup =>
    cases h
    exact habsent hlookup
  · contradiction
  · cases h
    simp
  · next hlookup =>
    obtain ⟨_, -, heq⟩ := Option.map_eq_some_iff.mp h
    cases heq
    exact habsent hlookup

private theorem keyword_of_kwargs {a : Args ν} {kwargs : Kwargs ν} (h : a.kwargs = some kwargs) :
    a.keyword = kwargs := (Option.ite_none_right_eq_some.mp h).2 |> Option.some.inj

private theorem mem_kwargs_one {a b : Args ν} {first : String} {default : Option (Value ν)} {v : Value ν}
    {kwargs : Kwargs ν} (hfirst : a.take first default = some (v, b))
    (hkwargs : b.kwargs = some kwargs) (argument : String × Value ν) :
    argument ∈ kwargs ↔ argument ∈ a.keyword ∧ argument.1 ∉ [first] := by
  rw [← keyword_of_kwargs hkwargs, mem_keyword_take hfirst, List.mem_singleton]

private theorem mem_kwargs_two {a b c : Args ν} {first second : String} {d d' : Option (Value ν)}
    {v w : Value ν} {kwargs : Kwargs ν} (hfirst : a.take first d = some (v, b))
    (hsecond : b.take second d' = some (w, c)) (hkwargs : c.kwargs = some kwargs)
    (argument : String × Value ν) :
    argument ∈ kwargs ↔ argument ∈ a.keyword ∧ argument.1 ∉ [first, second] := by
  rw [← keyword_of_kwargs hkwargs, mem_keyword_take hsecond, mem_keyword_take hfirst]
  simp [and_assoc]

private theorem noBackendArguments_iff {cls : TransportClass} {a : Args ν} {kwargs : Kwargs ν}
    (h : ∀ argument, argument ∈ kwargs ↔ argument ∈ a.keyword ∧ argument.1 ∉ cls.parameters) :
    NoBackendArguments cls a ↔ kwargs = [] := by
  simp only [List.eq_nil_iff_forall_not_mem, h, not_and, not_not]
  rfl

private theorem exists_of_two_parameters {β : Type u} {a : Args ν} {first second : String}
    {d d' : Option (Value ν)} (cls : TransportClass)
    (body : Value ν → Value ν → Kwargs ν → Option β) {x : β}
    (hparameters : cls.parameters = [first, second])
    (h : (do
      let (v, b) ← a.take first d
      let (w, c) ← b.take second d'
      body v w (← c.kwargs)) = some x) :
    ∃ v w kwargs, body v w kwargs = some x ∧ (NoBackendArguments cls a ↔ kwargs = []) ∧
      ∀ argument ∈ kwargs, argument.1 ∉ cls.parameters := by
  obtain ⟨⟨v, b⟩, hfirst, h⟩ := Option.bind_eq_some_iff.mp h
  obtain ⟨⟨w, c⟩, hsecond, h⟩ := Option.bind_eq_some_iff.mp h
  obtain ⟨kwargs, hkwargs, hbody⟩ := Option.bind_eq_some_iff.mp h
  have hmem : ∀ argument, argument ∈ kwargs ↔
      argument ∈ a.keyword ∧ argument.1 ∉ cls.parameters := by
    intro argument
    rw [hparameters]
    exact mem_kwargs_two hfirst hsecond hkwargs argument
  exact ⟨v, w, kwargs, hbody, noBackendArguments_iff hmem,
    fun argument hargument ↦ ((hmem argument).mp hargument).2⟩

private theorem construct_eq_some {out : Outside ν δ} {cls : BackendClass} {kwargs : Kwargs ν}
    {b : Backend ν} (h : out.construct cls kwargs = some b) :
    out.accepts cls kwargs = true ∧ b = ⟨cls, kwargs⟩ := by
  obtain ⟨haccepts, heq⟩ := Option.ite_none_right_eq_some.mp h
  exact ⟨haccepts, (Option.some.inj heq).symm⟩

/-! ## Rebuilding -/

private theorem preserved_iff_nil {out : Outside ν δ} {t : BuiltTransport ν δ} {own kwargs : Kwargs ν}
    (hbackend : t.backend.kwargs = own ++ kwargs)
    (hown : ∀ argument ∈ kwargs, own.lookup argument.1 = none)
    (hrebuilt : ∀ t', t.rebuild out = some t' →
      t'.cls = t.cls ∧ t'.topic = t.topic ∧ t'.backend = ⟨t.backend.cls, own⟩)
    (hsome : kwargs = [] → (t.rebuild out).isSome) : Preserved out t ↔ kwargs = [] := by
  constructor
  · rintro ⟨t', hrebuild, -, -, -, hlookup⟩
    rw [(hrebuilt t' hrebuild).2.2, hbackend] at hlookup
    cases kwargs with
    | nil => rfl
    | cons argument rest =>
      obtain ⟨key, value⟩ := argument
      have hsame := hlookup key
      rw [List.lookup_append, hown (key, value) List.mem_cons_self] at hsame
      simp at hsame
  · intro hnil
    obtain ⟨t', hrebuild⟩ := Option.isSome_iff_exists.mp (hsome hnil)
    obtain ⟨hcls, htopic, hbackend'⟩ := hrebuilt t' hrebuild
    refine ⟨t', hrebuild, hcls, htopic, ?_⟩
    rw [Backend.Same, hbackend', hbackend, hnil, List.append_nil]
    exact ⟨rfl, fun _ ↦ rfl⟩

private theorem preserved_iff_of_construct {out : Outside ν δ} {t : BuiltTransport ν δ}
    (make : Backend ν → BuiltTransport ν δ) (own : Kwargs ν) {cls : BackendClass} {kwargs : Kwargs ν}
    (ht : t = make ⟨cls, own ++ kwargs⟩) (haccepts : out.accepts cls (own ++ kwargs) = true)
    (hmake : ∀ b, (make b).cls = t.cls ∧ (make b).topic = t.topic ∧ (make b).backend = b)
    (hrebuild : t.rebuild out = (out.construct cls own).bind fun b ↦ some (make b))
    (hown : ∀ argument ∈ kwargs, own.lookup argument.1 = none) :
    Preserved out t ↔ kwargs = [] := by
  have hbackend : t.backend = ⟨cls, own ++ kwargs⟩ := by
    rw [ht]
    exact (hmake _).2.2
  refine preserved_iff_nil (by rw [hbackend]) hown (fun t' ht' ↦ ?_) fun hnil ↦ ?_
  · rw [hrebuild] at ht'
    obtain ⟨b, hb, heq⟩ := Option.bind_eq_some_iff.mp ht'
    cases heq
    rw [(construct_eq_some hb).2, hbackend]
    exact hmake _
  · rw [hnil, List.append_nil] at haccepts
    rw [hrebuild, Outside.construct, if_pos haccepts]
    rfl

private theorem preserved_plain {out : Outside ν δ} {cls : TransportClass} {backend : BackendClass}
    {make : Value ν → Backend ν → BuiltTransport ν δ} {a : Args ν} {t : BuiltTransport ν δ}
    (ht : cls.call out a = some t) (hcls : cls.parameters = ["topic"])
    (hcall : cls.call out = plainInit out backend make)
    (hmake : ∀ topic b, (make topic b).reduce out = (cls, [topic]) ∧ (make topic b).cls = cls ∧
      (make topic b).topic = .plain topic ∧ (make topic b).backend = b) :
    Preserved out t ↔ NoBackendArguments cls a := by
  rw [hcall] at ht
  obtain ⟨⟨topic, b⟩, htopic, ht⟩ := Option.bind_eq_some_iff.mp ht
  obtain ⟨kwargs, hkwargs, ht⟩ := Option.bind_eq_some_iff.mp ht
  obtain ⟨lcm, hlcm, ht⟩ := Option.bind_eq_some_iff.mp ht
  obtain ⟨haccepts, rfl⟩ := construct_eq_some hlcm
  cases ht
  have hmem := mem_kwargs_one htopic hkwargs
  rw [← hcls] at hmem
  rw [noBackendArguments_iff hmem]
  refine preserved_iff_of_construct (make topic) [] rfl haccepts (fun b ↦ ?_) ?_ fun _ _ ↦ rfl
  · simp only [(hmake _ _).2, and_self]
  · rw [BuiltTransport.rebuild, (hmake _ _).1, hcall]
    rfl

private theorem preserved_lcm {out : Outside ν δ} (hout : out.StoresArguments) {a : Args ν}
    {t : BuiltTransport ν δ} (ht : LCMTransport.init out a = some t) :
    Preserved out t ↔ NoBackendArguments .LCMTransport a := by
  obtain ⟨⟨topic, lcm⟩, hattributes, ht⟩ := Option.bind_eq_some_iff.mp ht
  cases ht
  obtain ⟨name, type, kwargs, hbody, hnone, -⟩ :=
    exists_of_two_parameters .LCMTransport (fun name type kwargs ↦ do
      return (out.lcmTopic name type, ← out.construct .LCM kwargs)) rfl hattributes
  obtain ⟨lcm, hlcm, ht⟩ := Option.bind_eq_some_iff.mp hbody
  obtain ⟨haccepts, rfl⟩ := construct_eq_some hlcm
  cases ht
  rw [hnone]
  refine preserved_iff_of_construct (.LCM (out.lcmTopic name type)) [] rfl haccepts
    (fun _ ↦ ⟨rfl, rfl, rfl⟩) ?_ fun _ _ ↦ rfl
  rw [BuiltTransport.rebuild, BuiltTransport.reduce, hout.topic, hout.lcm_type]
  have hrebuilt : LCMTransport.attributes out none { positional := [name, type] } =
      (out.construct .LCM []).bind fun b ↦ some (out.lcmTopic name type, b) := rfl
  rw [TransportClass.call, LCMTransport.init, hrebuilt]
  exact Option.bind_assoc ..

private theorem preserved_jpegLcm {out : Outside ν δ} (hout : out.StoresArguments) {a : Args ν}
    {t : BuiltTransport ν δ} (ht : JpegLcmTransport.init out a = some t) :
    Preserved out t ↔ NoBackendArguments .JpegLcmTransport a := by
  obtain ⟨name, type, kwargs, hbody, hnone, -⟩ :=
    exists_of_two_parameters .JpegLcmTransport (fun name type kwargs ↦ do
      let lcm ← out.construct .JpegLCM kwargs
      return BuiltTransport.JpegLcm (out.lcmTopic name type) lcm) rfl ht
  obtain ⟨lcm, hlcm, ht⟩ := Option.bind_eq_some_iff.mp hbody
  obtain ⟨haccepts, rfl⟩ := construct_eq_some hlcm
  cases ht
  rw [hnone]
  refine preserved_iff_of_construct (.JpegLcm (out.lcmTopic name type)) [] rfl haccepts
    (fun _ ↦ ⟨rfl, rfl, rfl⟩) ?_ fun _ _ ↦ rfl
  rw [BuiltTransport.rebuild, BuiltTransport.reduce, hout.topic, hout.lcm_type]
  rfl

private theorem preserved_jpegShm {out : Outside ν δ} {a : Args ν} {t : BuiltTransport ν δ}
    (ht : JpegShmTransport.init out a = some t) :
    Preserved out t ↔ NoBackendArguments .JpegShmTransport a := by
  obtain ⟨name, quality, kwargs, hbody, hnone, hothers⟩ :=
    exists_of_two_parameters .JpegShmTransport (fun name quality kwargs ↦ do
      let shm ← out.construct .JpegSharedMemory (("quality", quality) :: kwargs)
      return BuiltTransport.JpegShm name shm quality) rfl ht
  obtain ⟨shm, hshm, ht⟩ := Option.bind_eq_some_iff.mp hbody
  obtain ⟨haccepts, rfl⟩ := construct_eq_some hshm
  cases ht
  rw [hnone]
  refine preserved_iff_of_construct (.JpegShm name · quality) [("quality", quality)] rfl haccepts
    (fun _ ↦ ⟨rfl, rfl, rfl⟩) rfl fun argument hargument ↦ ?_
  have hne : argument.1 ≠ "quality" := by
    intro heq
    exact hothers argument hargument (by simp [TransportClass.parameters, heq])
  exact List.lookup_eq_none_iff.mpr (by simpa using hne)

private theorem preserved_ros {out : Outside ν δ} {a : Args ν} {t : BuiltTransport ν δ}
    (ht : ROSTransport.init a = some t) :
    Preserved out t ↔ NoBackendArguments .ROSTransport a := by
  obtain ⟨topic, msg_type, kwargs, ht, hnone, -⟩ :=
    exists_of_two_parameters .ROSTransport (fun topic msg_type kwargs ↦
      some (BuiltTransport.ROS { topic, msg_type } kwargs)) rfl ht
  cases ht
  rw [hnone]
  have hrebuild : BuiltTransport.rebuild out (.ROS { topic, msg_type } kwargs) =
      some (.ROS { topic, msg_type } []) := rfl
  refine preserved_iff_nil (List.nil_append _).symm (fun _ _ ↦ rfl) (fun t' ht' ↦ ?_) fun _ ↦ ?_
  · cases hrebuild.symm.trans ht'
    exact ⟨rfl, rfl, rfl⟩
  · rw [hrebuild]
    rfl

/-- Pickling preserves a transport exactly when the constructor call had no keyword arguments for the
backend. -/
theorem preserved_iff_noBackendArguments (out : Outside ν δ) (hout : out.StoresArguments)
    (cls : TransportClass) (a : Args ν) (t : BuiltTransport ν δ) (ht : cls.call out a = some t) :
    Preserved out t ↔ NoBackendArguments cls a := by
  cases cls with
  | pLCMTransport => exact preserved_plain ht rfl rfl fun _ _ ↦ ⟨rfl, rfl, rfl, rfl⟩
  | LCMTransport => exact preserved_lcm hout ht
  | JpegLcmTransport => exact preserved_jpegLcm hout ht
  | pSHMTransport => exact preserved_plain ht rfl rfl fun _ _ ↦ ⟨rfl, rfl, rfl, rfl⟩
  | SHMTransport => exact preserved_plain ht rfl rfl fun _ _ ↦ ⟨rfl, rfl, rfl, rfl⟩
  | JpegShmTransport => exact preserved_jpegShm ht
  | ROSTransport => exact preserved_ros ht

/-- A quality is kept. -/
theorem preserved_iff_noBackendArguments_jpegShm :
    Preserved (Outside.dataclass : Outside Unit _)
        (.JpegShm (.str "/image") ⟨.JpegSharedMemory, [("quality", .int 90)]⟩ (.int 90)) ↔
      NoBackendArguments .JpegShmTransport
        (⟨[.str "/image"], [("quality", .int 90)]⟩ : Args Unit) :=
  preserved_iff_noBackendArguments .dataclass ⟨fun _ _ ↦ rfl, fun _ _ ↦ rfl⟩ .JpegShmTransport
    ⟨[.str "/image"], [("quality", .int 90)]⟩ _ rfl

/-- The QoS profile of a `ROSTransport` is lost. -/
theorem reduce_drops_qos : ¬ ∀ (cls : TransportClass) (a : Args Unit) t,
    cls.call .dataclass a = some t → Preserved .dataclass t := by
  intro h
  obtain ⟨t', hrebuild, -, -, -, hlookup⟩ := h .ROSTransport
    { positional := [.str "/cmd_vel", .object ()], keyword := [("qos", .object ())] } _ rfl
  cases hrebuild
  have hqos := hlookup "qos"
  contradiction

end HzjDds.Transport.Reduce
