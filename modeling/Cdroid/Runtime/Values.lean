/-! The values that travel between the processes: the runtime's Parcelables and
the calls of the binder interfaces. A null `sp<T>` is `none`. The interfaces are
over any type `B` of binder objects. -/

namespace Cdroid.Runtime

/-- A byte string; the trailing NUL is not part of it. -/
abbrev String8 := List UInt8

instance : LawfulBEq String8 := inferInstanceAs (LawfulBEq (List UInt8))

/-- The bytes of an ASCII literal. -/
def ascii (s : String) : String8 := s.toList.map fun c => c.toNat.toUInt8

structure ComponentName where
  mName : String8
  deriving DecidableEq

structure Intent where
  mAction : String8
  mCategory : String8
  mComponent : ComponentName
  deriving DecidableEq

structure ActivityInfo where
  mName : String8
  mApplicationName : String8
  mAction : String8
  mCategory : String8
  mFilename : String8
  deriving DecidableEq

structure ServiceInfo where
  mName : String8
  mApplicationName : String8
  mAction : String8
  mCategory : String8
  mFilename : String8
  deriving DecidableEq

structure IntentFilter where
  mActions : List String8
  mCategories : List String8
  mPriority : BitVec 32
  deriving DecidableEq

structure ReceiverInfo where
  mName : String8
  mApplicationName : String8
  mFilename : String8
  mINF : Option IntentFilter
  deriving DecidableEq

/-- `Bundle` has no data members. -/
structure Bundle where
  deriving DecidableEq

structure KeyEvent where
  mCode : BitVec 32
  mAction : BitVec 32
  deriving DecidableEq

structure Text where
  mString : String8
  deriving DecidableEq

/-- `Intent(action)` -/
def Intent.ofAction (action : String8) : Intent := ⟨action, [], ⟨[]⟩⟩

/-- `Intent(action, category)` -/
def Intent.ofActionCategory (action category : String8) : Intent := ⟨action, category, ⟨[]⟩⟩

/-- `ActivityInfo(name, filename)` -/
def ActivityInfo.new (name filename : String8) : ActivityInfo := ⟨name, [], [], [], filename⟩

/-- `ServiceInfo(name, filename)` -/
def ServiceInfo.new (name filename : String8) : ServiceInfo := ⟨name, [], [], [], filename⟩

/-- `ReceiverInfo(name, filename)` -/
def ReceiverInfo.new (name filename : String8) : ReceiverInfo := ⟨name, [], filename, none⟩

/-- `IntentFilter()` -/
def IntentFilter.new : IntentFilter := ⟨[], [], 0⟩

def IntentFilter.matchIntent (inf : IntentFilter) (intent : Intent) : Bool :=
  inf.mActions.any fun action => action = intent.mAction

section Interfaces
variable (B : Type)

/-- The methods of `IApplicationThread` with their arguments. -/
inductive ApplicationThreadCall
  | schedulePauseActivity (token : Option B)
  | bindApplication (appName : String8)
  | scheduleLaunchActivity (ai : Option ActivityInfo) (token : Option B) (intent : Option Intent)
  | scheduleCreateService (si : Option ServiceInfo) (token : Option B) (intent : Option Intent)
  | scheduleBindService (token : Option B) (intent : Option Intent) (rebind : Bool)
  | scheduleReceiver (intent : Option Intent) (bundle : Option Bundle) (ordered sticky : Bool)
  deriving DecidableEq

/-- The methods of `IActivityManager` with their arguments. -/
inductive ActivityManagerCall
  | attachApplication (appThread : Option B)
  | startActivity (caller resultTo : Option B) (intent : Option Intent) (requestCode : BitVec 32)
  | startService (caller : Option B) (intent : Option Intent)
  | bindService (caller token : Option B) (intent : Option Intent) (connection : Option B)
      (flags : BitVec 32)
  | publishService (token : Option B) (intent : Option Intent) (service : Option B)
  | registerReceiver (caller receiver : Option B) (filter : Option IntentFilter)
  | broadcastIntent (caller : Option B) (intent : Option Intent) (resultTo : Option B)
      (map : Option Bundle) (serialized sticky : Bool)
  deriving DecidableEq

/-- The method of `IIntentReceiver` with its arguments. -/
inductive IntentReceiverCall
  | performReceive (intent : Option Intent) (extra : Option Bundle) (ordered sticky : Bool)
  deriving DecidableEq

/-- The method of `IServiceConnection` with its arguments. -/
inductive ServiceConnectionCall
  | connected (name : Option ComponentName) (service : Option B)
  deriving DecidableEq

/-- The methods of `IWindowManager` with their arguments. -/
inductive WindowManagerCall
  | onKeyEvent (keyEvent : Option KeyEvent)
  | registerFocusWindow (binder : Option B)
  | displayText (txt : Option Text)
  deriving DecidableEq

end Interfaces

end Cdroid.Runtime
