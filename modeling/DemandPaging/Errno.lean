namespace DemandPaging

inductive Errno where
  | perm | io | badFile | again | noMemory | access | fault | busy | exists | invalid | noDevice
  | noSpace
deriving DecidableEq

namespace Errno

def all : List Errno :=
  [perm, io, badFile, again, noMemory, access, fault, busy, .exists, invalid, noDevice, noSpace]

def code : Errno → Int
  | perm => -1
  | io => -5
  | badFile => -9
  | again => -11
  | noMemory => -12
  | access => -13
  | fault => -14
  | busy => -16
  | .exists => -17
  | noDevice => -19
  | invalid => -22
  | noSpace => -28

def name : Errno → String
  | perm => "EPERM"
  | io => "EIO"
  | badFile => "EBADF"
  | again => "EAGAIN"
  | noMemory => "ENOMEM"
  | access => "EACCES"
  | fault => "EFAULT"
  | busy => "EBUSY"
  | .exists => "EEXIST"
  | noDevice => "ENODEV"
  | invalid => "EINVAL"
  | noSpace => "ENOSPC"

def describe : Errno → String
  | perm => "Operation not permitted."
  | io => "I/O error."
  | badFile => "Bad file number."
  | again => "Try again."
  | noMemory => "Out of memory"
  | access => "Permission denied."
  | fault => "Bad address."
  | busy => "Device or resource busy."
  | .exists => "File exists."
  | noDevice => "No such device."
  | invalid => "Invalid argument."
  | noSpace => "No space left on device."

def text (e : Errno) : String := e.name ++ ", " ++ e.describe

def debugText (e : Errno) : String := "Error(" ++ toString e.code ++ ")"

def ofCode? (n : Int) : Option Errno := all.find? fun e => e.code == n

def ofName? (s : String) : Option Errno := all.find? fun e => e.name == s

def info (n : Int) : String :=
  match ofCode? n with
  | some e => e.text
  | none => "Unknown error"

theorem ofCode?_code (e : Errno) : ofCode? e.code = some e := by
  cases e <;> decide

theorem info_code (e : Errno) : info e.code = e.text := by
  simp only [info, ofCode?_code]

end Errno

end DemandPaging
