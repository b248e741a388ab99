namespace K210Linux

def nrTasks : Nat := 64
def nrOpen : Nat := 20
def nrFile : Nat := 64

def eperm : Int := 1
def enoent : Int := 2
def esrch : Int := 3
def eintr : Int := 4
def eio : Int := 5
def enoexec : Int := 8
def ebadf : Int := 9
def echild : Int := 10
def eagain : Int := 11
def enomem : Int := 12
def eacces : Int := 13
def ebusy : Int := 16
def eexist : Int := 17
def exdev : Int := 18
def enotdir : Int := 20
def eisdir : Int := 21
def einval : Int := 22
def emfile : Int := 24
def enospc : Int := 28
def espipe : Int := 29
def enotempty : Int := 39

def isReg (mode : BitVec 16) : Bool := mode &&& 0o170000 = 0o100000
def isDir (mode : BitVec 16) : Bool := mode &&& 0o170000 = 0o040000
def isBlk (mode : BitVec 16) : Bool := mode &&& 0o170000 = 0o060000

end K210Linux
