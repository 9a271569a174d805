import Htnd.Utxo.Collection

/- Transactions as the consensus API holds them (externalapi/transaction.go). The ID that
   consensushashing.TransactionID hashes from a transaction is a field here: the hash covers
   only fields that never change once a transaction is built, so a transaction keeps its ID
   when its inputs are filled with UTXO entries or its fee and mass are set. -/
namespace Utxo

structure DomainSubnetworkID where
  bytes : List UInt8
  deriving DecidableEq, Repr

def subnetworkIDCoinbase : DomainSubnetworkID := ⟨1 :: List.replicate 19 0⟩

structure DomainTransactionInput where
  previousOutpoint : DomainOutpoint
  signatureScript : List UInt8
  sequence : UInt64
  sigOpCount : UInt8
  utxoEntry : Option UTXOEntry
  deriving DecidableEq, Repr

structure DomainTransactionOutput where
  value : UInt64
  scriptPublicKey : ScriptPublicKey
  deriving DecidableEq, Repr

structure DomainTransaction where
  id : DomainTransactionID
  inputs : List DomainTransactionInput
  outputs : List DomainTransactionOutput
  subnetworkID : DomainSubnetworkID
  fee : UInt64
  mass : UInt64
  deriving DecidableEq, Repr

def isCoinBase (tx : DomainTransaction) : Bool :=
  tx.subnetworkID == subnetworkIDCoinbase

end Utxo
