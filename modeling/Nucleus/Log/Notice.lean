import Nucleus.Log.Record
import Nucleus.Process.Descriptor

/-!
# Notices

What the nucleus has to say while it works, as data, and the log record in which each notice is
shown.
-/

namespace Nucleus

/-- The areas of the nucleus that give notices. -/
inductive Area where
  | boot
  | processes
  | semaphores
  | scheduling
  | traps
  | services
  | interrupts
  deriving DecidableEq

/-- The target that the records of an area carry. -/
def Area.target : Area → String
  | boot => "boot"
  | processes => "kaya_kernel::process::lifecycle"
  | semaphores => "kaya_kernel::sync::semaphore"
  | scheduling => "kaya_kernel::sched"
  | traps => "kaya_kernel::trap"
  | services => "kaya_kernel::trap::syscall"
  | interrupts => "kaya_kernel::trap::interrupt"

/-- The record of an area with a level and a text. -/
def Area.record (area : Area) (level : Level) (text : String) : Record := ⟨level, area.target, text⟩

/-- How a stage of the bootstrap went. -/
inductive BootMark where
  | ok
  | fail
  | warn
  | info
  deriving DecidableEq

/-- A line reported while the machine starts up or stops. -/
inductive BootLine where
  /-- A stage and how it went. -/
  | stage (mark : BootMark) (text : String)
  /-- A detail of the stage before. -/
  | detail (text : String)
  /-- A line of the banner. -/
  | banner (text : String)

namespace BootLine

/-- The record that shows a line; details are set off to where the text of a stage starts. -/
def record : BootLine → Record
  | stage .ok text => Area.boot.record .info ("[ OK ] " ++ text)
  | stage .fail text => Area.boot.record .error ("[FAIL] " ++ text)
  | stage .warn text => Area.boot.record .warn ("[WARN] " ++ text)
  | stage .info text => Area.boot.record .info ("[INFO] " ++ text)
  | detail text => Area.boot.record .info ("       " ++ text)
  | banner text => Area.boot.record .info text

/-- The banner shown first. -/
def bannerLines : List BootLine :=
  [.banner " _  __",
   .banner "| |/ /__ _ _   _  __ _",
   .banner "| ' // _\x60 | | | |/ _\x60 |",
   .banner "| . \\ (_| | |_| | (_| |",
   .banner "|_|\\_\\__,_|\\__, |\\__,_|",
   .banner "           |___/",
   .banner " Kaya nucleus v0.1.0"]

end BootLine

/-- A notice. -/
inductive Notice where
  /-- A process was created by `parent`, or as the root. -/
  | created (pid : Pid) (parent : Option Pid)
  /-- A process was terminated. -/
  | terminated (pid : Pid)
  /-- A process was queued on a semaphore. -/
  | blocked (pid : Pid) (id : SemaphoreId)
  /-- A process was released from a semaphore. -/
  | woke (pid : Pid) (id : SemaphoreId)
  /-- The running process goes on. -/
  | resuming (pid : Pid)
  /-- A ready process gets the processor. -/
  | dispatching (pid : Pid)
  /-- Nothing is ready, and `soft` processes wait for a device or the clock. -/
  | idle (soft : Word)
  /-- No process is left. -/
  | nothingLeft
  /-- Processes are alive and none can ever go on. -/
  | stuck (alive : Word)
  /-- An exception goes to the handler of the process. -/
  | passedUp (pid : Pid) (c : ExceptionClass)
  /-- An exception has no handler. -/
  | unhandled (pid : Pid) (c : ExceptionClass)
  /-- A process could not be created. -/
  | poolExhausted
  /-- A process announced a second handler for a class of exceptions. -/
  | secondHandler (pid : Pid) (c : ExceptionClass)
  /-- An interrupt came from no line that is served. -/
  | strayInterrupt (cause : Word)
  /-- A process has used up its quantum. -/
  | quantumExpired (pid : Pid)
  /-- The pseudo-clock ticked. -/
  | clockTick
  /-- A line was raised for no unit. -/
  | emptyBitmap (line : Nat)
  /-- A terminal interrupted and neither half has completed. -/
  | nothingCompleted (unit : Nat)
  /-- A line of the bootstrap. -/
  | boot (line : BootLine)

namespace Notice

/-- The pid of a parent, if there is one, spelled out. -/
def describeParent : Option Pid → String
  | none => "None"
  | some parent => "Some(" ++ parent.describe ++ ")"

/-- The record that shows a notice. -/
def record : Notice → Record
  | created pid parent =>
    Area.processes.record .debug
      ("created " ++ pid.describe ++ " (parent " ++ describeParent parent ++ ")")
  | terminated pid => Area.processes.record .debug ("terminated " ++ pid.describe)
  | blocked pid id =>
    Area.semaphores.record .trace ("blocked " ++ pid.describe ++ " on " ++ id.describe)
  | woke pid id => Area.semaphores.record .trace ("woke " ++ pid.describe ++ " from " ++ id.describe)
  | resuming pid => Area.scheduling.record .trace ("resuming " ++ pid.describe)
  | dispatching pid => Area.scheduling.record .trace ("dispatching " ++ pid.describe)
  | idle soft => Area.scheduling.record .trace ("idle, " ++ toString soft ++ " soft-blocked")
  | nothingLeft => Area.scheduling.record .info "no processes left"
  | stuck alive =>
    Area.scheduling.record .error
      (toString alive ++ " processes alive, none ready or soft-blocked")
  | passedUp pid c =>
    Area.traps.record .debug (pid.describe ++ ": passing " ++ c.describe ++ " up")
  | unhandled pid c =>
    Area.traps.record .debug (pid.describe ++ ": unhandled " ++ c.describe ++ ", terminating")
  | poolExhausted => Area.services.record .warn "process pool exhausted"
  | secondHandler pid c =>
    Area.services.record .debug (pid.describe ++ ": second " ++ c.describe ++ " registration")
  | strayInterrupt cause =>
    Area.interrupts.record .warn
      ("interrupt with no pending device line (cause " ++ Word.hex8 cause ++ ")")
  | quantumExpired pid => Area.interrupts.record .trace ("quantum expired for " ++ pid.describe)
  | clockTick => Area.interrupts.record .trace "pseudo-clock tick"
  | emptyBitmap line =>
    Area.interrupts.record .warn ("line " ++ toString line ++ " raised with an empty bitmap")
  | nothingCompleted unit =>
    Area.interrupts.record .warn
      ("terminal " ++ toString unit ++ " interrupt with nothing completed")
  | boot line => line.record

end Notice

end Nucleus
