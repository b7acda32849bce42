import BitcoinPqc.Api.BitcoinPqc
import BitcoinPqc.Api.Lib
import BitcoinPqc.Api.Machine
import BitcoinPqc.Api.SlhDsa
import BitcoinPqc.Correctness.Fors
import BitcoinPqc.Correctness.Layout
import BitcoinPqc.Correctness.Merkle
import BitcoinPqc.Correctness.Sha2
import BitcoinPqc.Correctness.Sha256x8
import BitcoinPqc.Correctness.Sha2Schedule
import BitcoinPqc.Correctness.Sha2X86
import BitcoinPqc.Correctness.Sha512
import BitcoinPqc.Correctness.Sign
import BitcoinPqc.Correctness.TreeHash
import BitcoinPqc.Correctness.TreeHashX8
import BitcoinPqc.Correctness.Verdict
import BitcoinPqc.Correctness.Verify
import BitcoinPqc.Correctness.Wots
import BitcoinPqc.Correctness.WotsLeaf
import BitcoinPqc.Foundation.Arm
import BitcoinPqc.Foundation.Atomics
import BitcoinPqc.Foundation.Avx2
import BitcoinPqc.Foundation.BitFields
import BitcoinPqc.Foundation.BlockHash
import BitcoinPqc.Foundation.BoundedSearch
import BitcoinPqc.Foundation.Bytes
import BitcoinPqc.Foundation.Cost
import BitcoinPqc.Foundation.CyclicStream
import BitcoinPqc.Foundation.FixedSum
import BitcoinPqc.Foundation.HashChain
import BitcoinPqc.Foundation.Heap
import BitcoinPqc.Foundation.HeightStack
import BitcoinPqc.Foundation.Memory
import BitcoinPqc.Foundation.MerkleTree
import BitcoinPqc.Foundation.RangeWorkers
import BitcoinPqc.Foundation.Reordering
import BitcoinPqc.Foundation.Requests
import BitcoinPqc.Foundation.Simd
import BitcoinPqc.Foundation.Traced
import BitcoinPqc.Foundation.TreeWalk
import BitcoinPqc.Foundation.X86
import BitcoinPqc.Foundation.X86Sha
import BitcoinPqc.Properties.AddressUse
import BitcoinPqc.Properties.CallHistory
import BitcoinPqc.Properties.Caps
import BitcoinPqc.Properties.CommonCrypto
import BitcoinPqc.Properties.DigestSplit
import BitcoinPqc.Properties.Dispatch
import BitcoinPqc.Properties.EightChains
import BitcoinPqc.Properties.Encoding
import BitcoinPqc.Properties.Extraction
import BitcoinPqc.Properties.Forgery
import BitcoinPqc.Properties.ForsThreads
import BitcoinPqc.Properties.FreshCalls
import BitcoinPqc.Properties.HashCalls
import BitcoinPqc.Properties.HashX8
import BitcoinPqc.Properties.KeyGeneration
import BitcoinPqc.Properties.KeygenRequests
import BitcoinPqc.Properties.Keys
import BitcoinPqc.Properties.Lib
import BitcoinPqc.Properties.MerkleCommitment
import BitcoinPqc.Properties.MessageHashing
import BitcoinPqc.Properties.OneTimeKeys
import BitcoinPqc.Properties.Outputs
import BitcoinPqc.Properties.Ownership
import BitcoinPqc.Properties.RandomSource
import BitcoinPqc.Properties.SaltGrinding
import BitcoinPqc.Properties.Sha2Arm
import BitcoinPqc.Properties.Sha2Dispatch
import BitcoinPqc.Properties.Sha2Runs
import BitcoinPqc.Properties.Sha2X86
import BitcoinPqc.Properties.SignOutcome
import BitcoinPqc.Properties.SignRequests
import BitcoinPqc.Properties.SignVerify
import BitcoinPqc.Properties.SignedMessage
import BitcoinPqc.Properties.SigningCost
import BitcoinPqc.Properties.Statistics
import BitcoinPqc.Properties.TreeHashStack
import BitcoinPqc.Properties.TreeShapes
import BitcoinPqc.Sphincs.Address
import BitcoinPqc.Sphincs.Fors
import BitcoinPqc.Sphincs.ForsThreads
import BitcoinPqc.Sphincs.Hash
import BitcoinPqc.Sphincs.HashSha2
import BitcoinPqc.Sphincs.Hypertree
import BitcoinPqc.Sphincs.Merkle
import BitcoinPqc.Sphincs.Params
import BitcoinPqc.Sphincs.Sha2
import BitcoinPqc.Sphincs.Sha256Avx
import BitcoinPqc.Sphincs.Sha256x8
import BitcoinPqc.Sphincs.Sha2Arm
import BitcoinPqc.Sphincs.Sha2Dispatch
import BitcoinPqc.Sphincs.Sha2X86
import BitcoinPqc.Sphincs.Sign
import BitcoinPqc.Sphincs.SignedMessage
import BitcoinPqc.Sphincs.ThreadState
import BitcoinPqc.Sphincs.TreeHash
import BitcoinPqc.Sphincs.Wots
import BitcoinPqc.Sphincs.WotsLeaf
